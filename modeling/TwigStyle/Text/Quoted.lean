import TwigStyle.Text.Hidden

/-!
# Quoted text

A text between double quotes: quotes and backslashes get a backslash in front, and hidden
characters are written by their code.
-/

namespace TwigStyle.Text

/-- A code point in hexadecimal, without leading zeros. -/
def hexText (n : Nat) : List Char := Nat.toDigits 16 n

/-- A character inside of quotes. -/
def quotedChar (c : Char) : List Char :=
  if c == '"' then ['\\', '"']
  else if c == '\\' then ['\\', '\\']
  else if c == '\t' then ['\\', 't']
  else if c == '\r' then ['\\', 'r']
  else if c == '\n' then ['\\', 'n']
  else if c == '\x00' then ['\\', '0']
  else if isHidden c then
    ['\\', 'u', '\x7b'] ++ hexText c.toNat ++ ['\x7d']
  else [c]

/-- A text between double quotes. -/
def quoted (t : List Char) : List Char := '"' :: t.flatMap quotedChar ++ ['"']

end TwigStyle.Text
