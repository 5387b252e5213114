import TwigStyle.Config.Basic
import TwigStyle.Disk.Walk
import TwigStyle.Path.Glob
import TwigStyle.Rule.Ruleset

/-!
# The linter and its files

A linter is a root directory, a ruleset, and a choice of files.  Files that are named are taken as
they are; directories are walked, and of what is found there the files with the extension of a
template are taken that no pattern excludes, and that some pattern includes if there are any.
-/

namespace TwigStyle

/-- What is checked, and how. -/
structure Linter where
  /-- The directory of the project, an absolute path. -/
  root : Path
  ruleset : Ruleset
  excluded : List Glob
  included : List Glob
  settings : RunSettings
  /-- The operators of the template language. -/
  table : OperatorTable

namespace Linter

/-- Make a linter.  A root that is given takes the place of that of the configuration, and patterns
    that are given are added to its own; the first one that is wrong decides. -/
def make (workingDirectory : Path) (root : Option Path) (excluded : List String)
    (config : Config) (ruleset : Ruleset) (table : OperatorTable) : Except Glob.Error Linter :=
  match Glob.parseAll (excluded ++ config.run.excluded), Glob.parseAll config.run.included with
  | .error e, _ => .error e
  | .ok _, .error e => .error e
  | .ok excluded, .ok included =>
    .ok {
      root := workingDirectory.join (root.getD config.run.root)
      ruleset
      excluded
      included
      settings := config.run
      table }

/-- The text of an error in a pattern. -/
def patternMessage (e : Glob.Error) : String := "Invalid glob pattern: " ++ e.message

/-! ### Finding files -/

/-- Has the path the extension of a template? -/
def isTemplate (l : Linter) (p : Path) : Bool :=
  p.extension?.any fun e => l.settings.extensions.contains (String.ofList e)

/-- Do the patterns take the path? -/
def takes (l : Linter) (p : Path) : Bool :=
  let relative := p.relativeTo l.root
  !Glob.anyMatch l.excluded relative &&
    (l.included.isEmpty || Glob.anyMatch l.included relative)

/-- The templates at a path. -/
def templatesAt (l : Linter) (d : Disk) (p : Path) : Except DiskError (List Path) :=
  let p := l.root.join p
  if d.isFile p then .ok [p]
  else match d.walk l.settings.heedsIgnoreFiles p with
    | .error e => .error e
    | .ok found => .ok (found.filter fun p => l.isTemplate p && l.takes p)

/-- Remove paths that are the same as the one before. -/
def dropRepeated : List Path → List Path
  | [] => []
  | p :: rest =>
    match dropRepeated rest with
    | [] => [p]
    | q :: rest => if p.same q then p :: rest else p :: q :: rest

/-- Paths in order, each once; of several spellings the first one stays. -/
def sortPaths (paths : List Path) : List Path :=
  dropRepeated (paths.mergeSort fun p q => p.compare q != .gt)

/-- The templates at paths, in order. -/
def templates (l : Linter) (d : Disk) (paths : List Path) : Except DiskError (List Path) :=
  match paths.mapM (l.templatesAt d) with
  | .error e => .error e
  | .ok found => .ok (sortPaths found.flatten)

/-- All templates of the project. -/
def allTemplates (l : Linter) (d : Disk) : Except DiskError (List Path) := l.templates d [l.root]

end Linter

end TwigStyle
