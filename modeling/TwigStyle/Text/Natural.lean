/-!
# Counts in text

Lines, columns and sizes are natural numbers below 2^64.  They are written in decimal; `readNat?`
takes decimal digits, after an optional plus sign, and refuses everything else, a value of 2^64 or
more included.
-/

namespace TwigStyle.Text

/-- The largest count. -/
def maxCount : Nat := Nat.pow 2 64 - 1

/-- The count after a count; after the largest one counting starts over. -/
def nextCount (n : Nat) : Nat := if n < maxCount then n + 1 else 0

/-- The value of a decimal digit. -/
def digitValue (c : Char) : Nat := c.toNat - '0'.toNat

/-- The value of a row of decimal digits, read from the left. -/
def digitsValue (t : List Char) : Nat :=
  t.foldl (fun n c => 10 * n + digitValue c) 0

/-- Read decimal digits only: at least one, and no other character. -/
def readDigits? (t : List Char) : Option Nat :=
  if t.isEmpty || !t.all Char.isDigit then none
  else
    let n := digitsValue t
    if n ≤ maxCount then some n else none

/-- Read a count: decimal digits, after an optional plus sign. -/
def readNat? : List Char → Option Nat
  | '+' :: t => readDigits? t
  | t => readDigits? t

/-- The decimal digits of a count. -/
def natText (n : Nat) : List Char := Nat.toDigits 10 n

end TwigStyle.Text
