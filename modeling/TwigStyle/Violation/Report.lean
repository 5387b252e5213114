import TwigStyle.Violation.Basic

/-!
# Reports

The violations of a fixed set of files.  The set is chosen at the start; a violation of any other
file is refused.  Files are kept in the order of their paths, violations in the order in which they
were recorded, and the four totals are counted along the way.
-/

namespace TwigStyle

/-- How many violations there are of each severity. -/
structure Totals where
  notices : Nat := 0
  warnings : Nat := 0
  errors : Nat := 0
  fatals : Nat := 0
deriving DecidableEq, Repr, Inhabited

/-- Count one more violation. -/
def Totals.count (t : Totals) : Severity → Totals
  | .notice => { t with notices := t.notices + 1 }
  | .warning => { t with warnings := t.warnings + 1 }
  | .error => { t with errors := t.errors + 1 }
  | .fatal => { t with fatals := t.fatals + 1 }

/-- The violations of a set of files. -/
structure Report where
  /-- Each file with its violations, ascending by path. -/
  files : List (Path × List Violation) := []
  /-- The files that were changed, in the order in which that happened. -/
  fixed : List Path := []
  totals : Totals := {}
deriving DecidableEq, Repr, Inhabited

namespace Report

/-- The only refusal of a report: the file is not in its set. -/
structure UnknownFile where
  file : Path
deriving DecidableEq, Repr

/-- The text of the refusal. -/
def UnknownFile.message (e : UnknownFile) : String :=
  "file " ++ e.file.text ++ " is not part of this report"

/-- Put a file in its place.  Of two spellings of the same path the later one stays. -/
def insertFile (file : Path) : List (Path × List Violation) → List (Path × List Violation)
  | [] => [(file, [])]
  | (f, vs) :: rest =>
    match file.compare f with
    | .lt => (file, []) :: (f, vs) :: rest
    | .eq => (file, vs) :: rest
    | .gt => (f, vs) :: insertFile file rest

/-- The report of some files, with nothing in it. -/
def empty (files : List Path) : Report :=
  { files := files.foldl (fun fs f => insertFile f fs) [] }

/-- Is the file in the set? -/
def covers (r : Report) (file : Path) : Bool := r.files.any fun (f, _) => f.same file

/-- The violations of a file, all of them. -/
def violationsOf? (r : Report) (file : Path) : Option (List Violation) :=
  (r.files.find? fun (f, _) => f.same file).map (·.2)

/-- Append a violation to those of its file. -/
def appendTo (v : Violation) : List (Path × List Violation) → List (Path × List Violation)
  | [] => []
  | (f, vs) :: rest =>
    if f.same v.file then (f, vs ++ [v]) :: rest else (f, vs) :: appendTo v rest

/-- Record a violation. -/
def add (r : Report) (v : Violation) : Except UnknownFile Report :=
  if r.covers v.file then
    .ok { r with files := appendTo v r.files, totals := r.totals.count v.severity }
  else .error ⟨v.file⟩

/-- Record violations one after the other. -/
def addAll (r : Report) : List Violation → Except UnknownFile Report
  | [] => .ok r
  | v :: vs =>
    match r.add v with
    | .ok r => r.addAll vs
    | .error e => .error e

/-- Record that a file was changed; a file counts once. -/
def addFixed (r : Report) (file : Path) : Except UnknownFile Report :=
  if !r.covers file then .error ⟨file⟩
  else if r.fixed.any (·.same file) then .ok r
  else .ok { r with fixed := r.fixed ++ [file] }

/-- The violations of one file that are at least as bad as `min`. -/
def fileViolations (r : Report) (file : Path) (min : Option Severity) :
    Except UnknownFile (List Violation) :=
  match r.violationsOf? file with
  | some vs => .ok (vs.filter (·.severity.atLeast min))
  | none => .error ⟨file⟩

/-- All violations that are at least as bad as `min`, file by file. -/
def allViolations (r : Report) (min : Option Severity) : List Violation :=
  (r.files.flatMap (·.2)).filter (·.severity.atLeast min)

/-- The files, ascending. -/
def paths (r : Report) : List Path := r.files.map (·.1)

/-- Is there a violation at least as bad as `s`? -/
def hasAt (r : Report) (s : Severity) : Bool :=
  r.files.any fun (_, vs) => vs.any (·.severity.atLeast (some s))

/-- A report as a JSON object. -/
def toJson (r : Report) : Json :=
  .obj [
    ("files", .obj (r.files.map fun (f, vs) => (f.text, .arr (vs.map Violation.toJson)))),
    ("fixed_files", .arr (r.fixed.map fun f => .str f.text)),
    ("total_notices", .nat r.totals.notices),
    ("total_warnings", .nat r.totals.warnings),
    ("total_errors", .nat r.totals.errors),
    ("total_fatal_errors", .nat r.totals.fatals)]

end Report

end TwigStyle
