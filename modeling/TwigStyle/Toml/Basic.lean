import TwigStyle.Toml.Datetime

/-!
# TOML values

A document of the configuration format is a table.  A table remembers how it came to be, because
that decides what may still be added to it while the document is read; for whoever uses the values
it makes no difference.

A date has two faces: it is a value of its own, and where a table is expected, a table of one
member.  The name of that member is reserved: a table of options whose first member has it stands
for a date.
-/

namespace TwigStyle

namespace Toml

/-- How a table came to be. -/
inductive TableForm where
  /-- Written between braces: it is complete. -/
  | inline
  /-- Made by a dotted key between braces. -/
  | inlineDotted
  /-- Named by a header, or the document itself. -/
  | header
  /-- Made on the way to a table named by a header. -/
  | implicit
  /-- Made by a dotted key. -/
  | dotted
deriving DecidableEq, Repr

end Toml

/-- A value of the format.  Of fractional numbers only the text is kept. -/
inductive Toml where
  | string (s : String)
  | integer (n : Int)
  | float (literal : List Char)
  | boolean (b : Bool)
  | datetime (d : Toml.Datetime)
  | array (items : List Toml)
  /-- An array of tables, each named by a header. -/
  | tables (items : List Toml)
  | table (form : Toml.TableForm) (members : List (String × Toml))
deriving Repr

namespace Toml

/-- The name of the type of a value. -/
def typeName : Toml → String
  | string _ => "string"
  | integer _ => "integer"
  | float _ => "float"
  | boolean _ => "boolean"
  | datetime _ => "datetime"
  | array _ => "array"
  | tables _ => "array"
  | table _ _ => "table"

/-- The text of a string. -/
def string? : Toml → Option String
  | string s => some s
  | _ => none

/-- The value of a Boolean. -/
def boolean? : Toml → Option Bool
  | boolean b => some b
  | _ => none

/-- The value of an integer that is not negative. -/
def nat? : Toml → Option Nat
  | integer (.ofNat n) => some n
  | _ => none

/-- The items of an array. -/
def items? : Toml → Option (List Toml)
  | array items => some items
  | tables items => some items
  | _ => none

/-- The name of the only member of a date. -/
def dateName : String := "$__toml_private_datetime"

/-- The members of a table; a date has its text as the only one. -/
def members? : Toml → Option (List (String × Toml))
  | table _ members => some members
  | datetime d => some [(dateName, .string (String.ofList d.text))]
  | _ => none

/-- The texts of an array of strings. -/
def strings? (v : Toml) : Option (List String) := v.items?.bind (·.mapM string?)

/-! ### Options -/

/-- The date that the members of a table stand for: the text of one, and nothing else. -/
def dateOf? : List (String × Toml) → Option Toml
  | [(_, .string s)] => (Datetime.read? s.toList).map .datetime
  | _ => none

mutual

/-- A value as an option: at every depth, a table whose first member has the reserved name is the
    date it stands for.  None if it stands for no date. -/
def option? : Toml → Option Toml
  | array items => (optionItems? items).map array
  | tables items => (optionItems? items).map tables
  | table form members =>
    if (members.head?).any (·.1 == dateName) then dateOf? members
    else (optionMembers? members).map (table form)
  | v => some v

/-- The items of an array as options. -/
def optionItems? : List Toml → Option (List Toml)
  | [] => some []
  | v :: rest => do some ((← option? v) :: (← optionItems? rest))

/-- The members of a table as options. -/
def optionMembers? : List (String × Toml) → Option (List (String × Toml))
  | [] => some []
  | (name, v) :: rest => do some ((name, ← option? v) :: (← optionMembers? rest))

end

end Toml

end TwigStyle
