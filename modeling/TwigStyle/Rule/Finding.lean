import TwigStyle.Edit.Buffer
import TwigStyle.Token.Stream
import TwigStyle.Violation.Basic
import TwigStyle.Violation.Directive

/-!
# Findings

What a rule has to say about a token: how bad it is, the message, and how to mend it.  A finding is
plain data.  Linting turns findings into violations and fixing carries out their repairs; in both
cases the ones that a directive silences are left out first.
-/

namespace TwigStyle

/-- Something a rule has found. -/
structure Finding where
  /-- The place of the token in its stream. -/
  index : Nat
  /-- The token it is reported on. -/
  token : Token
  message : String
  severity : Severity := .error
  /-- Which of the rule's messages this is. -/
  sub : Option String := none
  /-- How to mend it; none if it cannot be mended. -/
  repair : Option (List Command) := none
deriving DecidableEq, Repr

namespace Finding

/-- The id under which a rule reports a finding. -/
def id (rule : String) (f : Finding) : ViolationId :=
  { rule := some rule
    sub := f.sub
    token := some f.token.kind.label
    line := some f.token.line
    column := some f.token.column }

/-- Is the finding silenced? -/
def isSilenced (directives : List ViolationId) (rule : String) (f : Finding) : Bool :=
  isSuppressed directives (f.id rule)

/-- The finding as a violation of a file. -/
def violation (rule : String) (file : Path) (f : Finding) : Violation :=
  { severity := f.severity, message := f.message, file, rule := some rule, id := some (f.id rule) }

end Finding

end TwigStyle
