import TwigStyle.Text.Casing

/-!
# Naming conventions

A name is a row of words.  Words end at underscores and at changes of case: before a capital that
follows a small letter or a digit, and before the last capital of a row of capitals that goes on
with a small letter (`HTMLParser` is `html`, `parser`).  A convention writes the words, in small
letters, with underscores between them or with capitals at their starts.  Underscores at the start
of a name are kept as they are.
-/

namespace TwigStyle

/-- How the words of a name are written. -/
inductive NamingCase where
  /-- `foo_bar` -/
  | snake
  /-- `fooBar` -/
  | camel
  /-- `FooBar` -/
  | pascal
deriving DecidableEq, Repr, Inhabited

namespace NamingCase

/-- All conventions. -/
def all : List NamingCase := [snake, camel, pascal]

/-- The name of a convention. -/
def label : NamingCase → String
  | snake => "snake_case"
  | camel => "camelCase"
  | pascal => "PascalCase"

/-- The convention of a given name. -/
def ofLabel? (s : String) : Option NamingCase := all.find? (·.label == s)

/-- Does a word start at a capital with these neighbours? -/
def startsWord (previous next : Option Char) : Bool :=
  match previous with
  | none => false
  | some p =>
    Text.isLower p || p.isDigit || (Text.isUpper p && next.any Text.isLower)

/-- The words of a text, in small letters; `current` is the word read so far and `previous` the
    character before the text. -/
def wordsFrom (current : List Char) (previous : Option Char) : List Char → List (List Char)
  | [] => if current.isEmpty then [] else [current]
  | c :: t =>
    if c == '_' then
      if current.isEmpty then wordsFrom [] (some c) t else current :: wordsFrom [] (some c) t
    else if Text.isUpper c && !current.isEmpty && startsWord previous t.head? then
      current :: wordsFrom (Text.toLower c) (some c) t
    else wordsFrom (current ++ Text.toLower c) (some c) t

/-- The words of a name, in small letters. -/
def words (name : List Char) : List (List Char) := wordsFrom [] none name

/-- A word with a capital at its start. -/
def capitalize : List Char → List Char
  | [] => []
  | c :: t => Text.toUpper c ++ t

/-- Words written by a convention. -/
def join : NamingCase → List (List Char) → List Char
  | snake, ws => List.intercalate ['_'] ws
  | camel, [] => []
  | camel, w :: ws => w ++ ws.flatMap capitalize
  | pascal, ws => ws.flatMap capitalize

/-- A name written by a convention. -/
def convert (convention : NamingCase) (name : List Char) : List Char :=
  name.takeWhile (· == '_') ++ convention.join (words (name.dropWhile (· == '_')))

end NamingCase

end TwigStyle
