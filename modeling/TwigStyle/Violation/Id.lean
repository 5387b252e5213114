import TwigStyle.Text.Blank
import TwigStyle.Text.Natural
import TwigStyle.Json.Basic

/-!
# Violation ids

An id names a rule, a message of that rule, the kind of token it was reported on, and the place:
`rule.sub.token:line:column`.  A reported violation carries all that is known; a suppression leaves
out what it does not care about, and a part left out matches anything.

`display` writes an id and `parse` reads one.  A token is written only after a sub id and a column
only after a line, so not every id can be read back; those that can are the ids a rule reports
under a sub id, and every id that was itself read.
-/

namespace TwigStyle

/-- The identity of a violation, or a pattern of such identities. -/
structure ViolationId where
  /-- The name of the rule. -/
  rule : Option String := none
  /-- Which of the rule's messages. -/
  sub : Option String := none
  /-- The kind of the token. -/
  token : Option String := none
  line : Option Nat := none
  column : Option Nat := none
deriving DecidableEq, Repr, Inhabited

namespace ViolationId

/-- An id that knows a line only. -/
def atLine (line : Nat) : ViolationId := { line := some line }

/-- A part of a name: blanks at its ends do not count, and an empty part is absent. -/
def namePart? (piece : Option (List Char)) : Option String :=
  match piece.map Text.trim with
  | none => none
  | some [] => none
  | some t => some (String.ofList t)

/-- A line or column: a count with blanks around it. -/
def countPart? (piece : Option (List Char)) : Option Nat :=
  piece.bind fun t => Text.readNat? (Text.trim t)

/-- Read an id.  A part that is empty or no number is absent; an absent line is `defaultLine`. -/
def parse (text : List Char) (defaultLine : Option Nat) : ViolationId :=
  let location := Text.splitWhere (· == ':') (Text.trim text)
  let names := Text.splitAtMost '.' 2 (location.headD [])
  { rule := namePart? names[0]?
    sub := namePart? names[1]?
    token := namePart? names[2]?
    line := (countPart? location[1]?).or defaultLine
    column := countPart? location[2]? }

/-- The text of an id. -/
def display (id : ViolationId) : List Char :=
  (id.rule.getD "").toList ++
    (match id.sub with
      | none => []
      | some sub => '.' :: sub.toList ++
        (match id.token with
          | none => []
          | some token => '.' :: token.toList)) ++
    (match id.line with
      | none => []
      | some line => ':' :: Text.natText line ++
        (match id.column with
          | none => []
          | some column => ':' :: Text.natText column))

/-- The text of an id as a string. -/
def displayText (id : ViolationId) : String := String.ofList id.display

/-- A name of a pattern against a name: absent matches anything, case does not count. -/
def nameMatches : (pattern value : Option String) → Bool
  | none, _ => true
  | some p, some v => Text.sameIgnoringCase p v
  | some _, none => false

/-- A number of a pattern against a number: absent matches anything. -/
def countMatches (pattern value : Option Nat) : Bool :=
  pattern.isNone || pattern == value

/-- Does `id` fit the pattern? -/
def isMatch (pattern id : ViolationId) : Bool :=
  nameMatches pattern.rule id.rule && nameMatches pattern.sub id.sub &&
    nameMatches pattern.token id.token && countMatches pattern.line id.line &&
    countMatches pattern.column id.column

/-! ### As JSON -/

/-- An id as a JSON object with all five members. -/
def toJson (id : ViolationId) : Json :=
  .obj [
    ("rule", Json.ofOption Json.str id.rule),
    ("sub_id", Json.ofOption Json.str id.sub),
    ("token", Json.ofOption Json.str id.token),
    ("line", Json.ofOption Json.nat id.line),
    ("column", Json.ofOption Json.nat id.column)]

end ViolationId

namespace Json

/-- An optional string: absent or null is none. -/
def optionalStr? : Option Json → Option (Option String)
  | none => some none
  | some .null => some none
  | some (.str s) => some (some s)
  | some _ => none

/-- An optional count: absent or null is none. -/
def optionalNat? : Option Json → Option (Option Nat)
  | none => some none
  | some .null => some none
  | some (.int (.ofNat n)) => some (some n)
  | some _ => none

end Json

namespace ViolationId

/-- An id from its five parts. -/
def ofParts? (rule sub token line column : Option Json) : Option ViolationId := do
  some {
    rule := ← Json.optionalStr? rule
    sub := ← Json.optionalStr? sub
    token := ← Json.optionalStr? token
    line := ← Json.optionalNat? line
    column := ← Json.optionalNat? column }

/-- An id from a JSON object, where every member is optional and unknown ones are ignored, or from
    the list of its five parts. -/
def ofJson? (j : Json) : Option ViolationId :=
  match j with
  | .obj _ =>
    ofParts? (j.member? "rule") (j.member? "sub_id") (j.member? "token") (j.member? "line")
      (j.member? "column")
  | .arr [rule, sub, token, line, column] =>
    ofParts? (some rule) (some sub) (some token) (some line) (some column)
  | _ => none

end ViolationId

end TwigStyle
