import TwigStyle.Output.Basic
import TwigStyle.Rule.Standard

/-!
# The list of rules

The command `list-rules` prints the rules and the standards they belong to.
-/

namespace TwigStyle

namespace RuleList

/-- The line of a rule. -/
def ruleLine (r : Rule) : String :=
  let fixable := if r.isFixable then "yes" else "no"
  Output.pad 22 r.name ++ " " ++ Output.pad 8 fixable ++ " " ++ r.description

/-- The line of a standard. -/
def standardLine (s : Standard) : String :=
  let names := String.intercalate ", " (s.rules.map (·.name))
  let mark := if s = Standard.default then " (default)" else ""
  "  " ++ Output.pad 12 s.label ++ " " ++ names ++ mark

/-- All that is printed. -/
def text : String :=
  Output.unlines (
    ["Available rules:",
      "",
      Output.pad 22 "Name" ++ " " ++ Output.pad 8 "Fixable" ++ " Description",
      String.ofList (List.replicate 80 '-')]
    ++ Rule.all.map ruleLine
    ++ ["", "Standards:"]
    ++ Standard.all.map standardLine
    ++ ["",
      "Disable or configure a rule in .twig-cs-fixer.toml, e.g.:",
      "  [rules.TrailingSpace]",
      "  enabled = false"])

end RuleList

end TwigStyle
