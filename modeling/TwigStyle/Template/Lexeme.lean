import TwigStyle.Text.Blank
import TwigStyle.Token.Kind

/-!
# Lexemes

How far names, numbers, strings and runs of layout reach.  Each function says how many characters
belong to the lexeme at the start of a text; none or 0 means that there is no such lexeme.
-/

namespace TwigStyle.Lexeme

/-- A character that starts a name. -/
def startsName (c : Char) : Bool := c.isAlpha || c == '_' || 0x80 ≤ c.toNat

/-- A character that continues a name. -/
def continuesName (c : Char) : Bool := startsName c || c.isDigit

/-- How many characters at the start of a text satisfy `p`. -/
def runLength (p : Char → Bool) (t : List Char) : Nat := (t.takeWhile p).length

/-- The length of the digits at the start of a text. -/
def digitsLength (t : List Char) : Nat := runLength Char.isDigit t

/-- The length of a fraction: a dot and at least one digit. -/
def fractionLength : List Char → Nat
  | '.' :: t => if digitsLength t = 0 then 0 else 1 + digitsLength t
  | _ => 0

/-- The length of an exponent: `e`, a sign and at least one digit. -/
def exponentLength : List Char → Nat
  | e :: sign :: t =>
    if (e == 'e' || e == 'E') && (sign == '+' || sign == '-') && digitsLength t != 0 then
      2 + digitsLength t
    else 0
  | _ => 0

/-- The length of a number: digits, a fraction and an exponent. -/
def numberLength (t : List Char) : Nat :=
  let whole := digitsLength t
  if whole = 0 then 0
  else
    let fraction := fractionLength (t.drop whole)
    whole + fraction + exponentLength (t.drop (whole + fraction))

/-- The length of the rest of a single-quoted string, its closing quote included.  A backslash
    takes the next character with it. -/
def singleQuotedLength? : List Char → Option Nat
  | [] => none
  | '\'' :: _ => some 1
  | ['\\'] => none
  | '\\' :: _ :: t => (singleQuotedLength? t).map (· + 2)
  | _ :: t => (singleQuotedLength? t).map (· + 1)

/-- The length of the literal part of a double-quoted string: up to the closing quote or the next
    interpolation.  A backslash takes the next character with it. -/
def literalLength : List Char → Nat
  | [] => 0
  | ['\\'] => 1
  | '\\' :: _ :: t => 2 + literalLength t
  | '"' :: _ => 0
  | '#' :: '\x7b' :: _ => 0
  | _ :: t => 1 + literalLength t

/-! ### Layout -/

/-- The classes of template text: words and the three forms of layout. -/
inductive LayoutClass where
  | text
  | spaces
  | tabs
  | lineBreak
deriving DecidableEq, Repr

/-- The kind of a piece of template text. -/
def LayoutClass.codeKind : LayoutClass → TokenKind
  | text => .text
  | spaces => .spaces
  | tabs => .tabs
  | lineBreak => .lineBreak

/-- The kind of a piece of a comment body. -/
def LayoutClass.commentKind : LayoutClass → TokenKind
  | text => .commentText
  | spaces => .commentSpaces
  | tabs => .commentTabs
  | lineBreak => .commentLineBreak

/-- The class of the piece that starts with `c`, and how many characters of `t` belong to it. -/
def layoutAt (c : Char) (t : List Char) : LayoutClass × Nat :=
  if c == '\r' then (.lineBreak, if t.head? == some '\n' then 1 else 0)
  else if c == '\n' then (.lineBreak, 0)
  else if c == ' ' then (.spaces, runLength (· == ' ') t)
  else if c == '\t' then (.tabs, runLength (· == '\t') t)
  else (.text, runLength (!Text.isLayout ·) t)

/-- Template text or a comment body, cut into words and layout. -/
def layoutPieces : List Char → List (LayoutClass × List Char)
  | [] => []
  | c :: t =>
    let more := (layoutAt c t).2
    ((layoutAt c t).1, c :: t.take more) :: layoutPieces (t.drop more)
termination_by t => t.length
decreasing_by
  rw [List.length_drop, List.length_cons]
  exact Nat.lt_succ_of_le (Nat.sub_le _ _)

end TwigStyle.Lexeme
