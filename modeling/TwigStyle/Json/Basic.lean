/-!
# JSON values and their text

Objects keep their members in order, repeated names included, so that the text written is the order
in which members were listed.  Integers are exact; any other number is kept as its literal, and so
is what can be written but has no value, because it escapes half of a character.

Two layouts are written: `compact` without any blank, and `pretty` with two spaces per level and
`[]` or an empty pair of braces for what has no content.  Characters beyond ASCII stay as they are.
-/

namespace TwigStyle

/-- A JSON value. -/
inductive Json where
  | null
  | bool (b : Bool)
  | int (n : Int)
  /-- A number with a fraction or an exponent, or beyond the range of integers, as written. -/
  | real (literal : String)
  | str (s : String)
  /-- A string that escapes half of a character, or an object with such a name, as written. -/
  | raw (literal : String)
  | arr (items : List Json)
  | obj (members : List (String × Json))
deriving Inhabited, Repr

namespace Json

/-- A count as a JSON number. -/
def nat (n : Nat) : Json := .int n

/-- A value or `null`. -/
def ofOption {α : Type} (f : α → Json) : Option α → Json
  | none => .null
  | some a => f a

/-- The member of a given name, the first one if there are several. -/
def member? : Json → String → Option Json
  | obj members, key => members.lookup key
  | _, _ => none

/-! ### Text -/

/-- A hexadecimal digit, in lower case. -/
def hexDigit (n : Nat) : Char := "0123456789abcdef".toList.getD n '0'

/-- A character inside a quoted string. -/
def escapeChar (c : Char) : List Char :=
  if c == '"' then ['\\', '"']
  else if c == '\\' then ['\\', '\\']
  else if c == '\n' then ['\\', 'n']
  else if c == '\r' then ['\\', 'r']
  else if c == '\t' then ['\\', 't']
  else if c.toNat == 8 then ['\\', 'b']
  else if c.toNat == 12 then ['\\', 'f']
  else if c.toNat < 0x20 then
    ['\\', 'u', '0', '0', hexDigit (c.toNat / 16), hexDigit (c.toNat % 16)]
  else [c]

/-- A quoted string. -/
def quote (s : String) : String :=
  String.ofList ('"' :: s.toList.flatMap escapeChar ++ ['"'])

mutual

/-- The text of a value without any blank. -/
def compact : Json → String
  | null => "null"
  | bool b => if b then "true" else "false"
  | int n => toString n
  | real literal => literal
  | str s => quote s
  | raw literal => literal
  | arr items => "[" ++ String.intercalate "," (compactItems items) ++ "]"
  | obj members => "\x7b" ++ String.intercalate "," (compactMembers members) ++ "\x7d"

/-- The texts of the items of an array. -/
def compactItems : List Json → List String
  | [] => []
  | item :: items => compact item :: compactItems items

/-- The texts of the members of an object. -/
def compactMembers : List (String × Json) → List String
  | [] => []
  | (key, value) :: members => (quote key ++ ":" ++ compact value) :: compactMembers members

end

/-- A new line at a given depth. -/
def newline (depth : Nat) : String := String.ofList ('\n' :: List.replicate (2 * depth) ' ')

mutual

/-- The text of a value with two spaces per level, starting at a given depth. -/
def prettyAt : (depth : Nat) → Json → String
  | _, null => "null"
  | _, bool b => if b then "true" else "false"
  | _, int n => toString n
  | _, real literal => literal
  | _, str s => quote s
  | _, raw literal => literal
  | _, arr [] => "[]"
  | depth, arr (item :: items) =>
    let texts := prettyAt (depth + 1) item :: prettyItems (depth + 1) items
    let lines := String.intercalate ("," ++ newline (depth + 1)) texts
    "[" ++ newline (depth + 1) ++ lines ++ newline depth ++ "]"
  | _, obj [] => "\x7b\x7d"
  | depth, obj ((key, value) :: members) =>
    let texts := (quote key ++ ": " ++ prettyAt (depth + 1) value) ::
      prettyMembers (depth + 1) members
    let lines := String.intercalate ("," ++ newline (depth + 1)) texts
    "\x7b" ++ newline (depth + 1) ++ lines ++ newline depth ++ "\x7d"

/-- The texts of items of an array. -/
def prettyItems : (depth : Nat) → List Json → List String
  | _, [] => []
  | depth, item :: items => prettyAt depth item :: prettyItems depth items

/-- The texts of members of an object. -/
def prettyMembers : (depth : Nat) → List (String × Json) → List String
  | _, [] => []
  | depth, (key, value) :: members =>
    (quote key ++ ": " ++ prettyAt depth value) :: prettyMembers depth members

end

/-- The text of a value with two spaces per level. -/
def pretty (j : Json) : String := prettyAt 0 j

end Json

end TwigStyle
