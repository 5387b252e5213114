import TwigStyle.Config.Basic
import TwigStyle.Rule.Standard

/-!
# The ruleset of a configuration

The standard comes first.  Then the settings of rules are taken up in the order of their names: a
rule that is switched off is removed, any other one is made from its options, limited to its paths,
and put in the place of the rule of that name, or at the end if the standard lacks it.
-/

namespace TwigStyle

/-- Why a configuration has no ruleset. -/
inductive RulesetError where
  | unknownStandard (name : String)
  | unknownRule (name : String)
  | invalidOption (rule key expected : String)
  | invalidPath (rule : String) (cause : Glob.Error)
deriving DecidableEq, Repr

namespace RulesetError

/-- The text of an error. -/
def message : RulesetError → String
  | unknownStandard name => s!"unknown standard `{name}`"
  | unknownRule name => s!"unknown rule `{name}`"
  | invalidOption rule key expected =>
    s!"invalid option `{key}` for rule `{rule}`: expected {expected}"
  | invalidPath rule cause =>
    s!"invalid path pattern for rule `{rule}`: " ++ cause.message

end RulesetError

namespace Rule

/-- The width of tabs among the options: not zero. -/
def indentOf (s : RuleSettings) : Except RulesetError Rule :=
  if (s.options.lookup "spaces").isNone then .ok (.indent Standard.indentWidth)
  else match s.natOption "spaces" 0 with
    | 0 => .error (.invalidOption "Indent" "spaces" "a positive integer")
    | width => .ok (.indent width)

/-- The naming convention among the options. -/
def variableNameOf (s : RuleSettings) : Except RulesetError Rule :=
  if (s.options.lookup "case").isNone then .ok (.variableName .snake)
  else match NamingCase.ofLabel? (s.textOption "case" "") with
    | some convention => .ok (.variableName convention)
    | none =>
      let labels := String.intercalate ", " (NamingCase.all.map (·.label))
      .error (.invalidOption "VariableName" "case" s!"one of {labels}")

/-- A rule of the library by its name, with its options. -/
def ofSettings (name : String) (s : RuleSettings) : Except RulesetError Rule :=
  if name = "Indent" then indentOf s
  else if name = "VariableName" then variableNameOf s
  else match Rule.all.find? (·.name == name) with
    | some r => .ok r
    | none => .error (.unknownRule name)

/-- Limit a rule to paths; no path is no limit. -/
def limitTo (name : String) (paths : List String) (r : Rule) : Except RulesetError Rule :=
  if paths.isEmpty then .ok r
  else match Glob.parseAll paths with
    | .ok globs => .ok (.onPaths r globs)
    | .error e => .error (.invalidPath name e)

end Rule

namespace Ruleset

/-- Take up the settings of one rule. -/
def configure (rs : Ruleset) (name : String) (s : RuleSettings) : Except RulesetError Ruleset :=
  if !s.isEnabled then .ok (rs.remove name)
  else match Rule.ofSettings name s with
    | .error e => .error e
    | .ok r =>
      match r.limitTo name s.paths with
      | .error e => .error e
      | .ok r => .ok (rs.add r)

/-- Take up the settings of rules one after the other; the first error decides. -/
def configureAll (rs : Ruleset) : List (String × RuleSettings) → Except RulesetError Ruleset
  | [] => .ok rs
  | (name, s) :: rest =>
    match rs.configure name s with
    | .error e => .error e
    | .ok rs => rs.configureAll rest

/-- The settings of rules in the order of their names. -/
def sortedSettings (rules : List (String × RuleSettings)) : List (String × RuleSettings) :=
  rules.mergeSort fun a b => a.1 ≤ b.1

end Ruleset

/-- The standard a configuration starts from. -/
def Config.standardRules (c : Config) : Except RulesetError (List Rule) :=
  match c.standard with
  | none => .ok Standard.default.rules
  | some name =>
    match Standard.ofLabel? name with
    | some s => .ok s.rules
    | none => .error (.unknownStandard name)

/-- The ruleset of a configuration. -/
def Config.ruleset (c : Config) : Except RulesetError Ruleset :=
  match c.standardRules with
  | .error e => .error e
  | .ok rules =>
    (({} : Ruleset).addAll rules).configureAll (Ruleset.sortedSettings c.rules)

end TwigStyle
