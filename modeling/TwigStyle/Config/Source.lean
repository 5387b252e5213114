import TwigStyle.Config.Basic
import TwigStyle.Disk.Basic

/-!
# Where the configuration comes from

A file that is named wins.  Otherwise the working directory and the directories above it are
searched, nearest first, up to the one that holds the repository; in each of them the local file
comes before the shared one.  Without a file of the project the file of the user counts, and without
that the defaults do.

The root that a file of the project sets is relative to the directory of that file, so that a run
from a subdirectory still covers the whole project.
-/

namespace TwigStyle

/-- Where the configuration comes from. -/
inductive ConfigSource where
  /-- The file was named. -/
  | explicit (path : Path)
  /-- The file was found in the project. -/
  | project (path : Path)
  /-- The file of the user. -/
  | user (path : Path)
  /-- There is no file. -/
  | default
deriving DecidableEq, Repr

/-- What the environment of a run says about the user. -/
structure Environment where
  /-- The home directory. -/
  home : Option Path := none
  /-- The directory of the user's configuration, if it is not in the home directory. -/
  configDirectory : Option Path := none
  /-- Whether the output goes to a terminal. -/
  terminal : Bool := false

/-- Why a configuration cannot be loaded. -/
inductive ConfigError where
  | unreadable (path : Path) (cause : DiskError)
  | invalid (path : Path)
deriving DecidableEq, Repr

namespace ConfigError

/-- The text of an error. -/
def message : ConfigError → String
  | unreadable path _ => "Failed to load config: " ++ path.text
  | invalid path => "Failed to load config: " ++ path.text

/-- What is behind an error, the nearest cause first. -/
def causes : ConfigError → List String
  | unreadable path cause =>
    ["Failed to read config file " ++ path.text ++ ": " ++ cause.message, cause.message]
  | invalid _ => ["Failed to parse config:"]

end ConfigError

namespace ConfigSource

/-- The names of the files of a project, the local one first. -/
def projectFiles : List String := [".twig-cs-fixer.toml", ".twig-cs-fixer.dist.toml"]

/-- The first of the directories with a file of a project, up to the one of the repository. -/
def projectFile? (d : Disk) : List Path → Option Path
  | [] => none
  | dir :: above =>
    match (projectFiles.map fun name => dir.join ⟨name⟩).find? d.isFile with
    | some file => some file
    | none => if d.pathExists (dir.join ⟨".git"⟩) then none else projectFile? d above

/-- The directory of the user's configuration.  An empty home directory is none. -/
def userDirectory? (env : Environment) : Option Path :=
  match env.configDirectory, env.home with
  | some dir, _ => some dir
  | none, some home =>
    if home.text.isEmpty then none else some (home.join ⟨".twig-cs-fixer"⟩)
  | none, none => none

/-- The file of the user. -/
def userFile? (env : Environment) : Option Path :=
  (userDirectory? env).map fun dir => Path.join dir ⟨"config.toml"⟩

/-- The source of the configuration for a run that starts in a directory. -/
def discover (d : Disk) (env : Environment) (start : Path) (named : Option Path) :
    ConfigSource :=
  match named with
  | some path => .explicit path
  | none =>
    match projectFile? d start.ancestors with
    | some path => .project path
    | none =>
      match userFile? env with
      | some path => if d.isFile path then .user path else .default
      | none => .default

/-- A root as seen from the directory of the file that sets it. -/
def anchored (dir root : Path) : Path :=
  if root.isAbsolute then root
  else if root.same ⟨"."⟩ then dir
  else dir.join root

/-- Read a configuration file. -/
def readFile (d : Disk) (path : Path) : Except ConfigError Config :=
  match d.read path with
  | .error e => .error (.unreadable path e)
  | .ok text =>
    match Config.parse? text with
    | none => .error (.invalid path)
    | some config => .ok config

/-- Read the configuration file of a project, and anchor its root. -/
def readProjectFile (d : Disk) (path : Path) : Except ConfigError Config :=
  match readFile d path with
  | .error e => .error e
  | .ok config =>
    match path.parent? with
    | none => .ok config
    | some dir => .ok { config with run := { config.run with root := anchored dir config.run.root } }

/-- Load the configuration. -/
def load (d : Disk) : ConfigSource → Except ConfigError Config
  | .default => .ok {}
  | .user path => readFile d path
  | .explicit path => readProjectFile d path
  | .project path => readProjectFile d path

end ConfigSource

end TwigStyle
