import TwigStyle.Rule.Finding

/-!
# Spacing

A spacing only says how many spaces it wants before and after a token.  What is there is the gap: the
maximal row of spaces, tabs and line breaks between the token and its neighbour.  `Spacing.check`
compares the two and finds the difference, first after the token and then before it.

A gap is right if it consists of exactly the wanted spaces.  A gap with a line break is accepted as
it is, or refused, as the spacing says.
-/

namespace TwigStyle

/-- How many spaces are wanted around the tokens of a stream. -/
structure Spacing where
  /-- Spaces wanted before a token; none if it does not matter. -/
  before : TokenStream → Nat → Option Nat
  /-- Spaces wanted after a token; none if it does not matter. -/
  after : TokenStream → Nat → Option Nat
  /-- A line break is accepted in place of the spaces. -/
  acceptsLineBreak : Bool := true

namespace Spacing

/-- A side of a token. -/
inductive Side where
  | before
  | after
deriving DecidableEq, Repr

/-- The word for a side. -/
def Side.word : Side → String
  | before => "before"
  | after => "after"

/-- The sub id of findings on a side. -/
def Side.sub : Side → String
  | before => "Before"
  | after => "After"

/-- The kinds that gaps are made of. -/
def gapKinds : List TokenKind := [.spaces, .tabs, .lineBreak]

/-- The tokens from `start` up to, not including, `stop`: the layout on one side of a token. -/
structure Gap where
  start : Nat
  stop : Nat
deriving DecidableEq, Repr

/-- The gap on a side of a token; none if no other token bounds it. -/
def gap? (s : TokenStream) (i : Nat) : Side → Option Gap
  | .after => (s.nextOutside gapKinds (i + 1)).map fun next => ⟨i + 1, next⟩
  | .before => (s.previousOutside gapKinds i).map fun previous => ⟨previous + 1, i⟩

namespace Gap

/-- The tokens of a gap. -/
def tokens (s : TokenStream) (g : Gap) : List Token := (s.tokens.extract g.start g.stop).toList

/-- Is there a token of this kind in the gap? -/
def has (s : TokenStream) (g : Gap) (kind : TokenKind) : Bool :=
  (g.tokens s).any (·.kind == kind)

/-- The number of spaces and tabs. -/
def width (s : TokenStream) (g : Gap) : Nat :=
  ((g.tokens s).filter (·.kind != .lineBreak)).foldr (fun t n => t.value.length + n) 0

/-- Make the gap a given text, as one change. -/
def fill (g : Gap) (i : Nat) (side : Side) (text : List Char) : List Command :=
  let edits :=
    if g.start < g.stop then
      .replace g.start (.text text) ::
        (List.range' (g.start + 1) (g.stop - g.start - 1)).map fun j => .replace j (.text [])
    else match side with
      | .before => [.prepend i (.text text)]
      | .after => [.append i (.text text)]
  .beginSet :: edits ++ [.endSet]

end Gap

/-- Is the gap as it should be? -/
def accepts (sp : Spacing) (s : TokenStream) (g : Gap) (wanted : Nat) : Bool :=
  if g.has s .lineBreak then sp.acceptsLineBreak
  else g.width s == wanted && !g.has s .tabs

/-- How messages call what is in a gap. -/
def foundText (s : TokenStream) (g : Gap) : String :=
  if g.has s .lineBreak then "newline" else toString (g.width s)

/-- The finding for a gap that is not as it should be. -/
def finding (s : TokenStream) (i : Nat) (token : Token) (side : Side) (g : Gap) (wanted : Nat) :
    Finding :=
  let word := side.word
  let value := token.valueText
  let found := foundText s g
  { index := i
    token
    message := s!"Expecting {wanted} whitespace {word} \"{value}\"; found {found}."
    sub := some side.sub
    repair := some (g.fill i side (List.replicate wanted ' ')) }

/-- The number of spaces wanted on a side of a token. -/
def wanted? (sp : Spacing) (s : TokenStream) (i : Nat) : Side → Option Nat
  | .before => sp.before s i
  | .after => sp.after s i

/-- What is wrong on one side of a token. -/
def checkSide (sp : Spacing) (s : TokenStream) (i : Nat) (side : Side) : List Finding :=
  match sp.wanted? s i side, s.get? i, gap? s i side with
  | some wanted, some token, some g =>
    if sp.accepts s g wanted then [] else [finding s i token side g wanted]
  | _, _, _ => []

/-- What is wrong around a token. -/
def check (sp : Spacing) (s : TokenStream) (i : Nat) : List Finding :=
  sp.checkSide s i .after ++ sp.checkSide s i .before

end Spacing

end TwigStyle
