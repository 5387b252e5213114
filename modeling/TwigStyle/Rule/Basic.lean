import TwigStyle.Path.Glob
import TwigStyle.Rule.CodeSpacing
import TwigStyle.Rule.Layout
import TwigStyle.Rule.Tailored
import TwigStyle.Rule.VariableName
import TwigStyle.Template.Source

/-!
# Rules

A rule is data: which check it is, with its options, and possibly the paths it is limited to.  What
it finds in a stream is a function of the stream alone (`Rule.check` for one token,
`Rule.findings` for all of them); whether it is asked at all depends on the path of the file.
-/

namespace TwigStyle

/-- A rule with its options. -/
inductive Rule where
  | delimiterSpacing
  | operatorSpacing
  | punctuationSpacing
  | variableName (convention : NamingCase)
  | blankEof
  | indent (width : Nat)
  | trailingSpace
  | rename (r : Rename)
  | marker (r : Marker)
  | spacing (r : SpacingTable)
  | script (r : Script)
  /-- A rule that is limited to the files that match one of the patterns. -/
  | onPaths (inner : Rule) (globs : List Glob)
deriving DecidableEq, Repr

namespace Rule

/-- The name that identifies a rule, and under which it reports. -/
def name : Rule → String
  | delimiterSpacing => "DelimiterSpacing"
  | operatorSpacing => "OperatorSpacing"
  | punctuationSpacing => "PunctuationSpacing"
  | variableName _ => "VariableName"
  | blankEof => "BlankEof"
  | indent _ => "Indent"
  | trailingSpace => "TrailingSpace"
  | rename r => r.name
  | marker r => r.name
  | spacing r => r.name
  | script r => r.name
  | onPaths inner _ => inner.name

/-- What a rule is for, in one line. -/
def description : Rule → String
  | delimiterSpacing =>
    "Enforces one space inside \x7b\x7b \x7d\x7d and \x7b% %\x7d delimiters"
  | operatorSpacing => "Enforces one space around binary operators and none after unary ones"
  | punctuationSpacing => "Enforces spacing around brackets, separators and hash colons"
  | variableName _ => "Requires variables declared with set to follow a naming convention"
  | blankEof => "Requires files to end with exactly one line break"
  | indent _ => "Requires spaces instead of tabs for indentation"
  | trailingSpace => "Forbids spaces and tabs at the end of a line"
  | onPaths inner _ => inner.description
  | _ => ""

/-- The name of a rule with its options and paths: what it finds may depend on nothing else. -/
def signature : Rule → String
  | variableName convention =>
    let label := convention.label
    s!"VariableName(case={label})"
  | indent width => s!"Indent(spaces={width})"
  | onPaths inner globs =>
    inner.signature ++ "@[" ++ String.intercalate "|" (globs.map (·.text)) ++ "]"
  | r => r.name

/-- Does the rule take part in fixing? -/
def isFixable : Rule → Bool
  | variableName _ => false
  | marker r => r.fixable
  | onPaths inner _ => inner.isFixable
  | _ => true

/-- Is the rule asked about the file? -/
def appliesTo (file : SourceFile) : Rule → Bool
  | onPaths inner globs => Glob.anyMatch globs file.relative && inner.appliesTo file
  | _ => true

/-- What the rule finds at one token. -/
def check : Rule → TokenStream → Nat → List Finding
  | delimiterSpacing, s, i => Spacing.delimiters.check s i
  | operatorSpacing, s, i => Spacing.operators.check s i
  | punctuationSpacing, s, i => Spacing.punctuation.check s i
  | variableName convention, s, i => checkNames convention s i
  | blankEof, s, i => Layout.blankEof s i
  | indent width, s, i => Layout.indent width s i
  | trailingSpace, s, i => Layout.trailingSpace s i
  | rename r, s, i => r.check s i
  | marker r, s, i => r.check s i
  | spacing r, s, i => r.spacing.check s i
  | script _, _, _ => []
  | onPaths inner _, s, i => inner.check s i

/-- What the rule finds in a stream, token by token. -/
def findings (r : Rule) (s : TokenStream) : List Finding :=
  (List.range s.size).flatMap (r.check s)

/-- What the rule finds in a file. -/
def lintFindings (r : Rule) (file : SourceFile) (s : TokenStream) : List Finding :=
  if r.appliesTo file then r.findings s else []

/-- The script of a rule that plays one. -/
def script? : Rule → Option Script
  | script r => some r
  | onPaths inner _ => inner.script?
  | _ => none

/-- What the rule finds in a stream when it is asked to fix it for the `pass`-th time, counted
    from 0. -/
def fixFindings (r : Rule) (pass : Nat) (s : TokenStream) : List Finding :=
  match r.script? with
  | some played => played.findings pass s
  | none => r.findings s

/-- Does the rule come with the library, at any nesting of path limits? -/
def isBuiltIn : Rule → Bool
  | rename _ => false
  | marker _ => false
  | spacing _ => false
  | script _ => false
  | onPaths inner _ => inner.isBuiltIn
  | _ => true

end Rule

end TwigStyle
