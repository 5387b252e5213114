import TwigStyle.Rule.Ruleset

/-!
# Standards

Named rows of rules with their usual options, to start from.
-/

namespace TwigStyle

/-- A row of rules to start from. -/
inductive Standard where
  /-- The coding standard of the template language. -/
  | language
  /-- The same with clean lines: the default. -/
  | full
deriving DecidableEq, Repr, Inhabited

namespace Standard

/-- All standards. -/
def all : List Standard := [language, full]

/-- The standard that is used if none is named. -/
def default : Standard := full

/-- The name of a standard. -/
def label : Standard → String
  | language => "Twig"
  | full => "TwigCsFixer"

/-- The standard of a name. -/
def ofLabel? (s : String) : Option Standard := all.find? (·.label == s)

/-- The number of spaces for a tab, if none is given. -/
def indentWidth : Nat := 4

/-- The rules about the template language. -/
def languageRules : List Rule :=
  [.delimiterSpacing, .operatorSpacing, .punctuationSpacing, .variableName .snake]

/-- The rules about lines. -/
def lineRules : List Rule := [.blankEof, .indent indentWidth, .trailingSpace]

/-- The rules of a standard, in the order in which they run. -/
def rules : Standard → List Rule
  | language => languageRules
  | full => languageRules ++ lineRules

end Standard

/-- Every rule of the library with its usual options. -/
def Rule.all : List Rule := Standard.languageRules ++ Standard.lineRules

end TwigStyle
