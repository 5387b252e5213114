import TwigStyle.Text.Position
import TwigStyle.Token.Kind

/-!
# Tokens

A token is a piece of the source together with its kind, the place of its first character and, for
a bracket, the index of its partner in the same stream.
-/

namespace TwigStyle

/-- A lexical unit. -/
structure Token where
  kind : TokenKind
  /-- The raw source text. -/
  value : List Char
  /-- Where the first character stands. -/
  position : Position
  /-- The index of the paired bracket. -/
  related : Option Nat := none
deriving DecidableEq, Repr, Inhabited

namespace Token

/-- The line of the first character. -/
def line (t : Token) : Nat := t.position.line

/-- The column of the first character. -/
def column (t : Token) : Nat := t.position.column

/-- The value as a string, for messages. -/
def valueText (t : Token) : String := String.ofList t.value

/-- Has the token this kind and this value? -/
def isThe (t : Token) (kind : TokenKind) (value : String) : Bool :=
  t.kind == kind && t.value == value.toList

/-- Is the token an opening bracket? -/
def opensBracket (t : Token) : Bool :=
  t.isThe .punctuation "(" || t.isThe .punctuation "[" || t.isThe .punctuation "\x7b"

/-- Is the token a closing bracket? -/
def closesBracket (t : Token) : Bool :=
  t.isThe .punctuation ")" || t.isThe .punctuation "]" || t.isThe .punctuation "\x7d"

end Token

end TwigStyle
