import TwigStyle.Config.Ruleset
import TwigStyle.Config.Source
import TwigStyle.Linter.Run
import TwigStyle.Tool.Arguments
import TwigStyle.Tool.Failure

/-!
# The command `lint`

Load the configuration, make the linter, find the files, run, and print the report.  The run fails
if a violation as bad as the configuration says remains.
-/

namespace TwigStyle

namespace Lint

/-- The name of the cache file, if the configuration gives none. -/
def cacheFile : Path := ⟨".twig-cs-fixer.cache"⟩

/-- The ruleset of a configuration. -/
def rulesetOf (config : Config) : Except Failure Ruleset :=
  match config.ruleset with
  | .ok rs => .ok rs
  | .error e =>
    let cause := match e with
      | .invalidPath _ cause => [cause.message]
      | _ => []
    .error { message := "Invalid rule configuration", causes := e.message :: cause }

/-- The linter of a configuration. -/
def linterOf (d : Disk) (request : LintRequest) (config : Config) (ruleset : Ruleset) :
    Except Failure Linter :=
  match Linter.make d.workingDirectory none request.excluded config ruleset
      OperatorTable.default with
  | .ok linter => .ok linter
  | .error e =>
    .error { message := "Failed to build linter", causes := [Linter.patternMessage e, e.message] }

/-- The severity at which the run fails. -/
def failSeverityOf (config : Config) : Except Failure Severity :=
  match config.failSeverity with
  | .ok s => .ok s
  | .error e => .error { message := "Invalid configuration", causes := [e.message] }

/-- The configuration of a source. -/
def configOf (d : Disk) (source : ConfigSource) : Except Failure Config :=
  match source.load d with
  | .ok config => .ok config
  | .error e => .error { message := e.message, causes := e.causes }

/-- The files to check. -/
def filesOf (d : Disk) (request : LintRequest) (linter : Linter) : Except Failure (List Path) :=
  let found :=
    if request.paths.isEmpty then linter.allTemplates d else linter.templates d request.paths
  match found with
  | .ok files => .ok files
  | .error e =>
    .error {
      message := "Failed to discover templates"
      causes := ["Failed to walk files: " ++ e.message, e.message] }

/-- Run with the cache and write it back; a cache that cannot be written is no failure. -/
def runCached (d : Disk) (request : LintRequest) (linter : Linter) (cacheFile : Path)
    (files : List Path) : Except Report.UnknownFile Linter.Result :=
  let cache :=
    Cache.load d (linter.root.join cacheFile) (Cache.signatureOf linter.ruleset)
  match linter.run d files request.fix (some cache) [] with
  | .error e => .error e
  | .ok result =>
    match (result.cache.getD cache).save result.disk with
    | .ok disk => .ok { result with disk }
    | .error _ => .ok result

/-- Run, with the cache unless it is not wanted. -/
def runFiles (d : Disk) (request : LintRequest) (linter : Linter) (config : Config)
    (files : List Path) : Except Failure Linter.Result :=
  let result :=
    if request.noCache then linter.run d files request.fix none []
    else runCached d request linter (config.cacheFile.getD cacheFile) files
  match result with
  | .ok result => .ok result
  | .error e => .error { message := "Lint run failed", causes := [e.message] }

/-- What `lint` gives: the text to print, whether the run fails, and the disk after it. -/
structure Result where
  text : String
  fails : Bool
  disk : Disk

/-- Carry out the command with a configuration from a source, and print with colours if wanted. -/
def run (d : Disk) (request : LintRequest) (source : ConfigSource) (color : Bool) :
    Except Failure Result := do
  let config ← configOf d source
  let failSeverity ← failSeverityOf config
  let ruleset ← rulesetOf config
  let linter ← linterOf d request config ruleset
  let files ← filesOf d request linter
  let result ← runFiles d request linter config files
  let options : OutputOptions :=
    { format := request.format, level := request.level, root := linter.root, color }
  return {
    text := Output.render options result.report
    fails := result.report.hasAt failSeverity
    disk := result.disk }

end Lint

end TwigStyle
