import TwigStyle.Rule.Basic
import TwigStyle.Template.Lexer
import TwigStyle.Text.Quoted
import TwigStyle.Violation.Report

/-!
# Rulesets

Rules in the order in which they run.  A name occurs once: a rule takes the place of an earlier one
of the same name, so that a standard can be adjusted rule by rule.
-/

namespace TwigStyle

/-- Rules in the order in which they run. -/
structure Ruleset where
  rules : List Rule := []
deriving DecidableEq, Repr, Inhabited

namespace Ruleset

/-- Put a rule in the place of the one of the same name, or else at the end. -/
def insert (rule : Rule) : List Rule → List Rule
  | [] => [rule]
  | r :: rs => if r.name = rule.name then rule :: rs else r :: insert rule rs

/-- Add a rule. -/
def add (rs : Ruleset) (rule : Rule) : Ruleset := ⟨insert rule rs.rules⟩

/-- Add rules one after the other. -/
def addAll (rs : Ruleset) (rules : List Rule) : Ruleset := rules.foldl add rs

/-- The rule of a name. -/
def find? (rs : Ruleset) (name : String) : Option Rule := rs.rules.find? (·.name == name)

/-- Remove the rule of a name. -/
def remove (rs : Ruleset) (name : String) : Ruleset := ⟨rs.rules.eraseP (·.name == name)⟩

/-- The names of the rules. -/
def names (rs : Ruleset) : List String := rs.rules.map (·.name)

/-- The rules that take part in fixing. -/
def fixable (rs : Ruleset) : List Rule := rs.rules.filter (·.isFixable)

/-- The signatures of all rules. -/
def signature (rs : Ruleset) : String := String.intercalate "," (rs.rules.map (·.signature))

/-- The names of the rules as one text. -/
def debugText (rs : Ruleset) : String :=
  let names := rs.names.map fun n => String.ofList (Text.quoted n.toList)
  "[" ++ String.intercalate ", " names ++ "]"

/-! ### Linting -/

/-- The violations that findings of a rule give, those that are silenced left out. -/
def violationsOf (rule : Rule) (file : Path) (directives : List ViolationId)
    (found : List Finding) : List Violation :=
  (found.filter fun f => !f.isSilenced directives rule.name).map (·.violation rule.name file)

/-- The violations of a file, rule by rule. -/
def violations (rs : Ruleset) (file : SourceFile) (s : TokenStream)
    (directives : List ViolationId) : List Violation :=
  rs.rules.flatMap fun r => violationsOf r file.path directives (r.lintFindings file s)

/-- Record the violations of a file. -/
def lint (rs : Ruleset) (file : SourceFile) (t : Template) (report : Report) :
    Except Report.UnknownFile Report :=
  if report.covers file.path then report.addAll (rs.violations file t.stream t.directives)
  else .error ⟨file.path⟩

end Ruleset

end TwigStyle
