import TwigStyle.Violation.Report

/-!
# Output formats

A report is printed for people (grouped by file, with colours if wanted), for programs (JSON), or with
one line for each violation.  Violations below the given level are left out; the totals always count
all of them.  Paths are printed relative to the root of the project.
-/

namespace TwigStyle

/-- How a report is printed. -/
inductive OutputFormat where
  | text
  | json
  | compact
deriving DecidableEq, Repr, Inhabited

namespace OutputFormat

/-- All formats. -/
def all : List OutputFormat := [text, json, compact]

/-- The name of a format. -/
def label : OutputFormat → String
  | text => "text"
  | json => "json"
  | compact => "compact"

/-- The format of a name. -/
def ofLabel? (s : String) : Option OutputFormat := all.find? (·.label == s)

end OutputFormat

/-- What is printed, and how. -/
structure OutputOptions where
  format : OutputFormat := .text
  /-- The least severity that is printed. -/
  level : Option Severity := none
  /-- Paths are printed relative to this directory. -/
  root : Path
  /-- Whether text has colours. -/
  color : Bool := false

namespace Output

/-- Lines, each with its line feed. -/
def unlines (lines : List String) : String := String.join (lines.map (· ++ "\n"))

/-- A text filled up with spaces to a width. -/
def pad (width : Nat) (text : String) : String :=
  text ++ String.ofList (List.replicate (width - text.length) ' ')

/-- The place of a violation in its file; a dash if it has none. -/
def location (v : Violation) : String :=
  match v.line, v.column with
  | some line, some column => s!"{line}:{column}"
  | some line, none => s!"{line}"
  | none, _ => "-"

/-- A text in a colour. -/
def paint (color : Bool) (code text : String) : String :=
  if color then "\x1b[" ++ code ++ "m" ++ text ++ "\x1b[0m" else text

/-- The colour of a severity. -/
def severityColor : Severity → String
  | .fatal => "1;31"
  | .error => "31"
  | .warning => "33"
  | .notice => "34"

/-- A path as it is printed. -/
def shownPath (o : OutputOptions) (p : Path) : String := (p.relativeTo o.root).text

/-- The violations of each file that are printed; files without any are left out. -/
def shownFiles (o : OutputOptions) (r : Report) : List (Path × List Violation) :=
  (r.files.map fun (f, vs) => (f, vs.filter (·.severity.atLeast o.level))).filter fun (_, vs) =>
    !vs.isEmpty

/-! ### Text -/

/-- The line of a violation. -/
def textLine (o : OutputOptions) (v : Violation) : String :=
  let severity := paint o.color (severityColor v.severity) (pad 7 v.severity.label)
  let id := match v.shortId? with
    | some id => s!"  ({id})"
    | none => ""
  "  " ++ pad 8 (location v) ++ " " ++ severity ++ " " ++ v.message ++ id

/-- The lines of a file: its path, its violations, and an empty line. -/
def textFile (o : OutputOptions) (file : Path × List Violation) : List String :=
  shownPath o file.1 :: file.2.map (textLine o) ++ [""]

/-- The last line: how much was found. -/
def summaryLine (o : OutputOptions) (r : Report) : String :=
  let errors := r.totals.errors + r.totals.fatals
  let warnings := r.totals.warnings
  let notices := r.totals.notices
  let files := r.files.length
  let code := if errors > 0 then "31" else if warnings > 0 then "33" else "32"
  paint o.color code
    s!"Found {errors} error(s), {warnings} warning(s), {notices} notice(s) in {files} file(s)"

/-- The lines of a report. -/
def textLines (o : OutputOptions) (r : Report) : List String :=
  let fixed := r.fixed.length
  (shownFiles o r).flatMap (textFile o)
    ++ (if fixed > 0 then [s!"Fixed {fixed} file(s)"] else [])
    ++ [summaryLine o r]

/-! ### JSON -/

/-- A violation; what it does not know is left out. -/
def jsonViolation (v : Violation) : Json :=
  .obj ([("severity", Json.str v.severity.label)]
    ++ (v.shortId?.map fun id => ("id", Json.str id)).toList
    ++ (v.line.map fun line => ("line", Json.nat line)).toList
    ++ (v.column.map fun column => ("column", Json.nat column)).toList
    ++ [("message", Json.str v.message)])

/-- A report. -/
def jsonReport (o : OutputOptions) (r : Report) : Json :=
  .obj [
    ("totals", .obj [
      ("files", .nat r.files.length),
      ("notices", .nat r.totals.notices),
      ("warnings", .nat r.totals.warnings),
      ("errors", .nat r.totals.errors),
      ("fatal_errors", .nat r.totals.fatals)]),
    ("fixed", .arr (r.fixed.map fun p => .str (shownPath o p))),
    ("files", .arr ((shownFiles o r).map fun (f, vs) => .obj [
      ("path", .str (shownPath o f)),
      ("violations", .arr (vs.map jsonViolation))]))]

/-! ### One line for each violation -/

/-- The line of a violation. -/
def compactLine (o : OutputOptions) (v : Violation) : String :=
  let id := match v.shortId? with
    | some id => s!" [{id}]"
    | none => ""
  shownPath o v.file ++ ":" ++ location v ++ ": " ++ v.severity.label ++ id ++ " " ++ v.message

/-- The lines of a report. -/
def compactLines (o : OutputOptions) (r : Report) : List String :=
  (r.allViolations o.level).map (compactLine o)

/-! ### All formats -/

/-- A report as it is printed. -/
def render (o : OutputOptions) (r : Report) : String :=
  match o.format with
  | .text => unlines (textLines o r)
  | .json => unlines [(jsonReport o r).pretty]
  | .compact => unlines (compactLines o r)

end Output

end TwigStyle
