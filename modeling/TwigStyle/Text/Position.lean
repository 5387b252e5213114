/-!
# Lines and columns

A carriage return followed by a line feed is one line break; either of them alone is one too.
Columns count characters from 1.

`Position.after` moves a position over a text.  It is compositional as long as the text is not cut
between a carriage return and its line feed.
-/

namespace TwigStyle

/-- A place in a template. -/
structure Position where
  line : Nat
  column : Nat
deriving DecidableEq, Repr, Inhabited

namespace Position

/-- The first character of a template. -/
def start : Position := ⟨1, 1⟩

/-- The first column of the next line. -/
def nextLine (p : Position) : Position := ⟨p.line + 1, 1⟩

/-- The position after a text that starts at `p`. -/
def after (p : Position) : List Char → Position
  | [] => p
  | '\r' :: '\n' :: t => after p.nextLine t
  | '\r' :: t => after p.nextLine t
  | '\n' :: t => after p.nextLine t
  | _ :: t => after ⟨p.line, p.column + 1⟩ t

end Position

/-- The first line break of a text. -/
def firstLineBreak? : List Char → Option (List Char)
  | [] => none
  | '\r' :: '\n' :: _ => some ['\r', '\n']
  | '\r' :: _ => some ['\r']
  | '\n' :: _ => some ['\n']
  | _ :: t => firstLineBreak? t

/-- The line break a text uses: its first one, or a line feed if it has none. -/
def lineBreakOf (t : List Char) : List Char := (firstLineBreak? t).getD ['\n']

end TwigStyle
