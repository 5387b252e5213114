/-!
# Blank characters, trimming and splitting

Text that the program cuts is a `List Char`: every cut is then `takeWhile`, `dropWhile` or a
recursion on the list, and what was cut off can be put back with `++`.

`isBlank` is the White_Space property of the Unicode Standard.  The four characters that the lexer
treats as layout (`isLayout`: space, tab, carriage return, line feed) are among them.
-/

namespace TwigStyle.Text

/-- The White_Space property: tab to carriage return, space, and the blanks
    beyond U+007F. -/
def isBlank (c : Char) : Bool :=
  let n := c.toNat
  (9 ≤ n && n ≤ 13) || n == 0x20 || n == 0x85 || n == 0xA0 || n == 0x1680 ||
    (0x2000 ≤ n && n ≤ 0x200A) || n == 0x2028 || n == 0x2029 || n == 0x202F || n == 0x205F ||
    n == 0x3000

/-- Space, tab, carriage return or line feed. -/
def isLayout (c : Char) : Bool :=
  c == ' ' || c == '\t' || c == '\r' || c == '\n'

/-- A letter `A`-`Z` or `a`-`z`. -/
def isAsciiLetter (c : Char) : Bool := c.isAlpha

/-- Text without the blanks at its start. -/
def trimStart (t : List Char) : List Char := t.dropWhile isBlank

/-- Text without the blanks at its end. -/
def trimEnd (t : List Char) : List Char := (t.reverse.dropWhile isBlank).reverse

/-- Text without the blanks at both ends. -/
def trim (t : List Char) : List Char := trimEnd (trimStart t)

/-- The rest of a text after a given beginning. -/
def after? : (start t : List Char) → Option (List Char)
  | [], t => some t
  | c :: start, d :: t => if c = d then after? start t else none
  | _ :: _, [] => none

/-- Cut at every character that satisfies `p`; the cut characters are dropped.
    There is always at least one piece. -/
def splitWhere {α : Type} (p : α → Bool) : List α → List (List α)
  | [] => [[]]
  | c :: cs =>
    if p c then [] :: splitWhere p cs
    else match splitWhere p cs with
      | [] => [[c]]
      | piece :: pieces => (c :: piece) :: pieces

/-- Cut at `sep` into `n + 1` pieces at most; the last piece keeps the rest. -/
def splitAtMost (sep : Char) : Nat → List Char → List (List Char)
  | 0, t => [t]
  | _ + 1, [] => [[]]
  | n + 1, c :: cs =>
    if c == sep then [] :: splitAtMost sep n cs
    else match splitAtMost sep (n + 1) cs with
      | [] => [[c]]
      | piece :: pieces => (c :: piece) :: pieces

/-- The maximal pieces without a character that satisfies `p`. -/
def fields (p : Char → Bool) (t : List Char) : List (List Char) :=
  (splitWhere p t).filter (!·.isEmpty)

/-- The words of a text: what stands between its blanks. -/
def words (t : List Char) : List (List Char) := fields isBlank t

/-- Equal up to the case of the letters `A`-`Z`. -/
def sameIgnoringCase (s t : String) : Bool :=
  s.toList.map Char.toLower == t.toList.map Char.toLower

end TwigStyle.Text
