import TwigStyle.Text.Blank

/-!
# Failures of the command line

A failure says what could not be done, and lists what is behind it, the nearest cause first.
Several causes are numbered; the lines of a cause are indented together.
-/

namespace TwigStyle

/-- Why a command failed. -/
structure Failure where
  message : String
  causes : List String := []
deriving DecidableEq, Repr

namespace Failure

/-- The lines of a text. -/
def linesOf (text : String) : List String :=
  (Text.splitWhere (· == '\n') text.toList).map String.ofList

/-- A cause: its first line after a mark, the other ones after as many blanks. -/
def causeText (mark margin cause : String) : String :=
  String.intercalate ("\n" ++ margin) (linesOf (mark ++ cause))

/-- The number of a cause, right-aligned. -/
def numberMark (n : Nat) : String :=
  let digits := toString n
  String.ofList (List.replicate (5 - digits.length) ' ') ++ digits ++ ": "

/-- The causes of a failure as text. -/
def causesText : List String → List String
  | [cause] => [causeText "    " "    " cause]
  | causes => causes.zipIdx.map fun (cause, n) => causeText (numberMark n) "       " cause

/-- A failure as it is reported. -/
def text (f : Failure) : String :=
  let report := "Error: " ++ f.message
  match f.causes with
  | [] => report
  | causes => report ++ "\n\nCaused by:\n" ++ String.intercalate "\n" (causesText causes)

end Failure

end TwigStyle
