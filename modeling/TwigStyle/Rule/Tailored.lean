import TwigStyle.Rule.Spacing

/-!
# Tailored rules

Rules that are made to order from data: one that renames tokens, one that marks them, one that takes
its spacing from a table, and one that plays back edits.  They serve projects with conventions of
their own, and they put the fixer to the test.
-/

namespace TwigStyle

/-- Tokens of a kind and value get another value. -/
structure Rename where
  name : String
  kind : TokenKind
  /-- The value to be replaced. -/
  old : List Char
  new : List Char
  severity : Severity
  sub : Option String
deriving DecidableEq, Repr

/-- The token to be renamed at an index. -/
def Rename.check (r : Rename) (s : TokenStream) (i : Nat) : List Finding :=
  match s.get? i with
  | none => []
  | some token =>
    if token.kind == r.kind && token.value == r.old then
      [{ index := i
         token
         message := "rename"
         severity := r.severity
         sub := r.sub
         repair := some [.replace i (.text r.new)] }]
    else []

/-- Tokens of a kind are reported and cannot be mended. -/
structure Marker where
  name : String
  kind : TokenKind
  severity : Severity
  sub : Option String
  /-- The rule takes part in fixing, where it does nothing. -/
  fixable : Bool
deriving DecidableEq, Repr

/-- The token to be reported at an index. -/
def Marker.check (r : Marker) (s : TokenStream) (i : Nat) : List Finding :=
  match s.get? i with
  | none => []
  | some token =>
    if token.kind == r.kind then
      let value := token.valueText
      [{ index := i
         token
         message := s!"Found \"{value}\"."
         severity := r.severity
         sub := r.sub }]
    else []

/-- The spaces wanted around the tokens of a kind, or those of them with a given value. -/
structure SpacingEntry where
  kind : TokenKind
  value : Option (List Char)
  before : Option Nat
  after : Option Nat
deriving DecidableEq, Repr

/-- A spacing given by a table, whose first fitting entry decides. -/
structure SpacingTable where
  name : String
  entries : List SpacingEntry
  acceptsLineBreak : Bool
deriving DecidableEq, Repr

/-- The entry for the token at an index. -/
def SpacingTable.entry? (r : SpacingTable) (s : TokenStream) (i : Nat) : Option SpacingEntry :=
  (s.get? i).bind fun t =>
    r.entries.find? fun e => e.kind == t.kind && (e.value.all fun v => v == t.value)

/-- The spacing of a table. -/
def SpacingTable.spacing (r : SpacingTable) : Spacing where
  before s i := (r.entry? s i).bind (·.before)
  after s i := (r.entry? s i).bind (·.after)
  acceptsLineBreak := r.acceptsLineBreak

/-- Edits to be played back, one list in each pass of the fixer. -/
structure Script where
  name : String
  passes : List (List Command)
  /-- The last list is played again in every later pass. -/
  repeats : Bool
  /-- The index of the token the edits are reported on; one past the end means the last token. -/
  index : Nat
  severity : Severity
  sub : Option String
deriving DecidableEq, Repr

/-- The edits of a pass, counted from 0. -/
def Script.edits? (r : Script) (pass : Nat) : Option (List Command) :=
  match r.passes[pass]? with
  | some edits => some edits
  | none => if r.repeats then r.passes.getLast? else none

/-- The finding of a pass. -/
def Script.findings (r : Script) (pass : Nat) (s : TokenStream) : List Finding :=
  let index := min r.index (s.size - 1)
  match r.edits? pass, s.get? index with
  | some edits, some token =>
    [{ index
       token
       message := "script"
       severity := r.severity
       sub := r.sub
       repair := some edits }]
  | _, _ => []

end TwigStyle
