import TwigStyle.Rule.Spacing

/-!
# Spaces in template code

Three spacings: one space inside of the delimiters of variables and blocks, one space around binary
operators, and the usual spaces around punctuation.
-/

namespace TwigStyle

namespace Spacing

/-! ### Delimiters -/

/-- The delimiters that open code. -/
def openers : List TokenKind := [.variableStart, .blockStart]

/-- The delimiters that close code. -/
def closers : List TokenKind := [.variableEnd, .blockEnd]

/-- One space unless the delimiter at `i` has its partner as neighbour. -/
def delimiterSpace (s : TokenStream) (i : Nat) (own partners : List TokenKind)
    (neighbour : Option Nat) : Option Nat :=
  match neighbour with
  | none => none
  | some j => if s.kindIn i own && !s.kindIn j partners then some 1 else none

/-- One space after an opening and before a closing delimiter; empty code is left alone. -/
def delimiters : Spacing where
  before s i := delimiterSpace s i closers openers (s.previousOutside TokenKind.layout i)
  after s i := delimiterSpace s i openers closers (s.nextOutside TokenKind.layout (i + 1))

/-! ### Operators -/

/-- Does an operator after this token have no left operand? -/
def expectsOperand (t : Token) : Bool :=
  match t.kind with
  | .operator => true
  | .variableStart => true
  | .blockStart => true
  | .blockName => true
  | .arrow => true
  | .interpolationStart => true
  | .punctuation => ["(", "[", "\x7b", ",", ":"].any fun v => t.value == v.toList
  | _ => false

/-- Has the operator at `i` no left operand? -/
def isUnary (s : TokenStream) (i : Nat) : Bool :=
  match (s.previousOutside TokenKind.empty i).bind s.get? with
  | none => true
  | some t => expectsOperand t

/-- One space around binary operators; none around a range and none after a sign. -/
def operators : Spacing where
  before s i :=
    match s.get? i with
    | none => none
    | some t =>
      if t.kind != .operator then none
      else if t.valueText == ".." then some 0
      else if ["-", "+", "not"].contains t.valueText && isUnary s i then none
      else some 1
  after s i :=
    match s.get? i with
    | none => none
    | some t =>
      if t.kind != .operator then none
      else if t.valueText == ".." then some 0
      else if ["-", "+"].contains t.valueText && isUnary s i then some 0
      else some 1

/-! ### Punctuation -/

/-- Does the token at `i` stand directly in square brackets? -/
def inSquareBrackets (s : TokenStream) (i : Nat) : Bool :=
  ((s.enclosingBracket i).index?.bind s.get?).any fun t => t.valueText == "["

/-- Brackets hug their content, separators stick to what stands before them, and a comma or a colon
    is followed by one space; the colon of a slice takes none. -/
def punctuation : Spacing where
  before s i :=
    match s.get? i with
    | none => none
    | some t =>
      if t.kind == .punctuation && [")", "]", "\x7d", ",", ":", ".", "|"].contains t.valueText then
        some 0
      else none
  after s i :=
    match s.get? i with
    | none => none
    | some t =>
      if t.kind != .punctuation then none
      else if ["(", "[", "\x7b", ".", "|"].contains t.valueText then some 0
      else if t.valueText == "," then some 1
      else if t.valueText == ":" then
        if inSquareBrackets s i then some 0 else some 1
      else none

end Spacing

end TwigStyle
