import TwigStyle.Text.Blank
import TwigStyle.Text.Word
import TwigStyle.Path.Basic

/-!
# Operators

An operator is one or more words.  Between its words any run of blanks may stand, and an operator
that ends with a letter has to end on a word boundary, so that `in` never swallows the start of
`index`.

A table lists operators longest first, and the first one that matches wins.  `=` is in every table.
-/

namespace TwigStyle

/-- An operator as it is written. -/
structure Operator where
  /-- The spelling, without blanks at its ends. -/
  text : List Char
deriving DecidableEq, Repr

namespace Operator

/-- The words of an operator. -/
def words (op : Operator) : List (List Char) := Text.words op.text

/-- Does the operator have to end on a word boundary? -/
def needsBoundary (op : Operator) : Bool := (op.text.getLast?).any Text.isAsciiLetter

/-- The size of the spelling in bytes, by which operators are ordered. -/
def byteSize (op : Operator) : Nat := op.text.foldr (fun c n => c.utf8Size + n) 0

/-- Longer operators first, equally long ones by their spelling. -/
def compare (a b : Operator) : Ordering :=
  (Ord.compare b.byteSize a.byteSize).then (Path.compareText a.text b.text)

/-- The text after some words with blanks between them. -/
def afterWords? : (words : List (List Char)) → List Char → Option (List Char)
  | [], t => some t
  | [w], t => Text.after? w t
  | w :: ws, t =>
    match Text.after? w t with
    | none => none
    | some t =>
      match t with
      | [] => none
      | c :: rest =>
        if Text.isBlank c then afterWords? ws (rest.dropWhile Text.isBlank) else none

/-- Does a word end before this text? -/
def atBoundary : List Char → Bool
  | [] => true
  | c :: _ => !Text.isWordChar c

/-- The text after the operator, if the text starts with it. -/
def after? (op : Operator) (t : List Char) : Option (List Char) :=
  match afterWords? op.words t with
  | none => none
  | some rest => if op.needsBoundary && !atBoundary rest then none else some rest

end Operator

/-- Operators in the order in which they are tried. -/
structure OperatorTable where
  operators : List Operator
deriving DecidableEq, Repr

namespace OperatorTable

/-- Put an operator in its place; a repeated one is dropped. -/
def insert (op : Operator) : List Operator → List Operator
  | [] => [op]
  | o :: os =>
    match op.compare o with
    | .lt => op :: o :: os
    | .eq => o :: os
    | .gt => o :: insert op os

/-- The table of some unary and binary operators, and `=`.  Blank ones do not count. -/
def build (unary binary : List String) : OperatorTable :=
  let spellings := ("=" :: unary ++ binary).map fun s => Text.trim s.toList
  ⟨(spellings.filter (!·.isEmpty)).foldl (fun os t => insert ⟨t⟩ os) []⟩

/-- The text after the first operator that matches. -/
def after? (table : OperatorTable) (t : List Char) : Option (List Char) :=
  table.operators.findSome? (·.after? t)

/-- The unary operators of the template language. -/
def defaultUnary : List String := ["not", "-", "+"]

/-- The binary operators of the template language. -/
def defaultBinary : List String :=
  ["or", "xor", "and", "b-or", "b-xor", "b-and", "==", "!=", "<=>", "<", ">", ">=", "<=",
    "not in", "in", "matches", "starts with", "ends with", "has some", "has every", "..", "+",
    "-", "~", "*", "/", "//", "%", "is", "is not", "**", "??", "?:"]

/-- The table of the template language. -/
def default : OperatorTable := build defaultUnary defaultBinary

end OperatorTable

end TwigStyle
