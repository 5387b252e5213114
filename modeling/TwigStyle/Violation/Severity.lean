/-!
# Severities

Four levels in ascending order: notice, warning, error, fatal.  A fatal violation means that the
file could not be processed at all.
-/

namespace TwigStyle

/-- How bad a violation is. -/
inductive Severity where
  | notice
  | warning
  | error
  | fatal
deriving DecidableEq, Repr, Inhabited

namespace Severity

/-- All severities, ascending. -/
def all : List Severity := [notice, warning, error, fatal]

/-- The place of a severity in the order. -/
def rank : Severity → Nat
  | notice => 0
  | warning => 1
  | error => 2
  | fatal => 3

/-- The name of a severity. -/
def label : Severity → String
  | notice => "notice"
  | warning => "warning"
  | error => "error"
  | fatal => "fatal"

/-- The severity of a given name. -/
def ofLabel? (s : String) : Option Severity := all.find? (·.label == s)

/-- Is `s` at least as bad as `min`?  Without a minimum everything is. -/
def atLeast (s : Severity) : (min : Option Severity) → Bool
  | none => true
  | some min => min.rank ≤ s.rank

end Severity

end TwigStyle
