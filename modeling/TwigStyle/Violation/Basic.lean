import TwigStyle.Path.Basic
import TwigStyle.Violation.Severity
import TwigStyle.Violation.Id

/-!
# Violations

What was found in a file: how bad it is, what it says, which rule says it, and its id, which also
carries the place.  A fatal violation belongs to no rule.
-/

namespace TwigStyle

/-- Something that is wrong with a file. -/
structure Violation where
  severity : Severity
  message : String
  file : Path
  /-- The name of the rule that reports it. -/
  rule : Option String := none
  id : Option ViolationId := none
deriving DecidableEq, Repr, Inhabited

namespace Violation

/-- A file that could not be processed, with the line at fault if it is known. -/
def fatal (message : String) (file : Path) (line : Option Nat) : Violation :=
  { severity := .fatal, message, file, id := line.map ViolationId.atLine }

/-- The line, if it is known. -/
def line (v : Violation) : Option Nat := v.id.bind (·.line)

/-- The column, if it is known. -/
def column (v : Violation) : Option Nat := v.id.bind (·.column)

/-- The violation on one line; an unknown line or column is written as 0. -/
def display (v : Violation) : String :=
  let line := v.line.getD 0
  let column := v.column.getD 0
  let rule := match v.rule with
    | none => ""
    | some rule => s!" [{rule}]"
  v.file.text ++ s!":{line}:{column}: " ++ v.severity.label ++ rule ++ " " ++ v.message

/-- The id without its place, if it names a rule. -/
def shortId? (v : Violation) : Option String :=
  match v.id with
  | some id =>
    if id.rule.isSome then some { id with line := none, column := none : ViolationId }.displayText
    else none
  | none => none

/-- A violation as a JSON object; an absent rule or id is left out. -/
def toJson (v : Violation) : Json :=
  .obj ([("severity", .str v.severity.label), ("message", .str v.message), ("file", .str v.file.text)]
    ++ (v.rule.map fun rule => ("rule", Json.str rule)).toList
    ++ (v.id.map fun id => ("id", id.toJson)).toList)

/-- A string. -/
def str? : Option Json → Option String
  | some (.str s) => some s
  | _ => none

/-- An optional id: absent or null is none. -/
def optionalId? : Option Json → Option (Option ViolationId)
  | none => some none
  | some .null => some none
  | some j => (ViolationId.ofJson? j).map some

/-- The name of a severity in JSON: a string, or the only member of an object, which is null. -/
def severityName? : Option Json → Option String
  | some (.obj [(name, .null)]) => some name
  | j => str? j

/-- A violation from its five parts. -/
def ofParts? (severity message file rule id : Option Json) : Option Violation := do
  some {
    severity := ← Severity.ofLabel? (← severityName? severity)
    message := ← str? message
    file := ⟨← str? file⟩
    rule := ← Json.optionalStr? rule
    id := ← optionalId? id }

/-- A violation from a JSON object, where rule and id are optional and unknown members are ignored,
    or from the list of its parts, where rule and id may be left off the end. -/
def ofJson? (j : Json) : Option Violation :=
  match j with
  | .obj _ =>
    ofParts? (j.member? "severity") (j.member? "message") (j.member? "file") (j.member? "rule")
      (j.member? "id")
  | .arr items =>
    if items.length > 5 then none
    else ofParts? items[0]? items[1]? items[2]? items[3]? items[4]?
  | _ => none

end Violation

end TwigStyle
