import TwigStyle.Fix.Fixer
import TwigStyle.Linter.Basic
import TwigStyle.Linter.Cache

/-!
# Runs

A run checks a list of files, after fixing them if wanted.  What goes wrong with a file becomes a
fatal violation of that file and does not concern the others.  All files are read first; then each
one is processed, and the report is put together in the order of the list.

With a cache, files that are known to be clean are skipped, and files that are found clean are
recorded.  How often each rule was asked to fix a file is counted on from file to file and from run
to run; the rules of the library do not look at it.
-/

namespace TwigStyle

/-- What became of a file. -/
structure Outcome where
  path : Path
  /-- The content that was checked in the end. -/
  content : List Char
  violations : List Violation
  /-- Whether fixing has changed the file. -/
  fixed : Bool
deriving DecidableEq, Repr

namespace Linter

/-- The violations of a content; one that cannot be cut into tokens has a single fatal one. -/
def violationsIn (l : Linter) (path : Path) (content : List Char) : List Violation :=
  let file := SourceFile.under l.root path content
  match tokenize l.table content with
  | .error e => [Violation.fatal e.message path (some e.line)]
  | .ok t => l.ruleset.violations file t.stream t.directives

/-- Fix a content, after rules were asked so often; how often they were asked then. -/
def fixContent (l : Linter) (path : Path) (content : List Char) (calls : CallCounts) :
    Except FixError (List Char) × CallCounts :=
  let fixer : Fixer := { table := l.table, calls }
  let (result, fixer) := fixer.fixFile l.ruleset (SourceFile.under l.root path content)
  (result, fixer.calls)

/-- What fixing means for a content: the new content if it differs, or why there is none.  A content
    that cannot be cut into tokens is left to the check that follows. -/
def changeOf (path : Path) (content : List Char) :
    Except FixError (List Char) → Except Violation (Option (List Char))
  | .ok new => .ok (if new = content then none else some new)
  | .error (.unreadable _) => .ok none
  | .error e => .error (Violation.fatal e.message path e.line)

/-- The text of a failure to write a fixed file. -/
def writeMessage (e : DiskError) : String := "Unable to write fixed file: " ++ e.message

/-- The text of a failure to read a file. -/
def readMessage (e : DiskError) : String := "Unable to read file: " ++ e.message

/-- Carry out a change of a file, then check it. -/
def finishFile (l : Linter) (path : Path) (content : List Char)
    (change : Except Violation (Option (List Char))) (d : Disk) : Outcome × Disk :=
  let unchanged (failures : List Violation) : Outcome × Disk :=
    ({ path, content, violations := failures ++ l.violationsIn path content, fixed := false }, d)
  match change with
  | .error v => unchanged [v]
  | .ok none => unchanged []
  | .ok (some new) =>
    match d.write path new with
    | .error e => unchanged [Violation.fatal (writeMessage e) path none]
    | .ok d =>
      ({ path, content := new, violations := l.violationsIn path new, fixed := true }, d)

/-- What a run leaves behind while it goes on. -/
structure Progress where
  disk : Disk
  calls : CallCounts := []

/-- Fix a file if wanted, then check it. -/
def processFile (l : Linter) (fix : Bool) (path : Path) (content : List Char) (s : Progress) :
    Outcome × Progress :=
  let (change, calls) :=
    if fix then
      let (result, calls) := l.fixContent path content s.calls
      (changeOf path content result, calls)
    else (.ok none, s.calls)
  let (outcome, disk) := l.finishFile path content change s.disk
  (outcome, { disk, calls })

/-- Process files one after the other. -/
def processAll (l : Linter) (fix : Bool) :
    List (Path × List Char) → Progress → List Outcome × Progress
  | [], s => ([], s)
  | (path, content) :: rest, s =>
    let (outcome, s) := l.processFile fix path content s
    let (outcomes, s) := processAll l fix rest s
    (outcome :: outcomes, s)

/-- Does the cache, if there is one, ask for the file to be checked? -/
def isPending (cache : Option Cache) (path : Path) (content : List Char) : Bool :=
  cache.all fun c => c.needs path content

/-- Read files: those that have to be processed, and a violation for each that cannot be read. -/
def readFiles (d : Disk) (cache : Option Cache) :
    List Path → List (Path × List Char) × List Violation
  | [] => ([], [])
  | path :: rest =>
    let (pending, failures) := readFiles d cache rest
    match d.read path with
    | .error e => (pending, Violation.fatal (readMessage e) path none :: failures)
    | .ok content =>
      if isPending cache path content then ((path, content) :: pending, failures)
      else (pending, failures)

/-- Put an outcome into the report. -/
def addOutcome (report : Report) (o : Outcome) : Except Report.UnknownFile Report :=
  match report.addAll o.violations with
  | .error e => .error e
  | .ok report => if o.fixed then report.addFixed o.path else .ok report

/-- Put outcomes into the report one after the other. -/
def addOutcomes (report : Report) : List Outcome → Except Report.UnknownFile Report
  | [] => .ok report
  | o :: rest =>
    match addOutcome report o with
    | .error e => .error e
    | .ok report => addOutcomes report rest

/-- Record the outcomes without any violation as clean. -/
def markClean (cache : Cache) (outcomes : List Outcome) : Cache :=
  outcomes.foldl (fun c o => if o.violations.isEmpty then c.mark o.path o.content else c) cache

/-- What a run gives. -/
structure Result where
  report : Report
  disk : Disk
  cache : Option Cache
  /-- How often each rule was asked to fix a file, earlier runs included. -/
  calls : CallCounts

/-- Check files, after fixing them if wanted.  `calls` counts what rules were asked in earlier
    runs. -/
def run (l : Linter) (d : Disk) (files : List Path) (fix : Bool) (cache : Option Cache)
    (calls : CallCounts) : Except Report.UnknownFile Result :=
  let (pending, failures) := readFiles d cache files
  let (outcomes, after) := l.processAll fix pending { disk := d, calls }
  match (Report.empty files).addAll failures with
  | .error e => .error e
  | .ok report =>
    match addOutcomes report outcomes with
    | .error e => .error e
    | .ok report =>
      .ok {
        report
        disk := after.disk
        cache := cache.map fun c => markClean c outcomes
        calls := after.calls }

end Linter

end TwigStyle
