import TwigStyle.Proofs.Laid
import TwigStyle.Rule.CodeSpacing

/-!
# Lexemes that run together

Taking away the layout between two lexemes can make another lexeme of them: `0 .1` is an attribute
of a number and `0.1` is a number.  `welds` lists the rows of lexemes that start with another lexeme
as soon as they are written together, as far as the rules that take layout away get at them, and
`sticky` finds them in a template: every gap of such a row is empty, or holds no line break and is
closed by an active rule.

`Fits` says of a row what makes its new text as good as its old one.  `word_old` is the main tool:
a word in the new text is a word in the old one, unless a gap that was closed goes through it.
-/

namespace TwigStyle

/-! ### Closing gaps -/

/-- The rules that take layout away, as far as they are active. -/
structure Closing where
  operators : Bool
  punctuation : Bool
deriving DecidableEq, Repr

/-- Has an operator after these lexemes, the last one first, no left operand? -/
def lacksOperand (before : List Lexeme) : Bool :=
  match before.find? fun l => !TokenKind.empty.contains l.1 with
  | none => true
  | some l => Spacing.expectsOperand { kind := l.1, value := l.2, position := Position.start }

namespace Closing

/-- All of them. -/
def all : Closing := ⟨true, true⟩

/-- None of them. -/
def none : Closing := ⟨false, false⟩

/-- Is a gap closed because of the lexeme in front of it? -/
def after (cl : Closing) (before : List Lexeme) (x : Lexeme) : Bool :=
  cl.punctuation && x.1 == .punctuation &&
      ["(", "[", "\x7b", ".", "|", ":"].any (·.toList == x.2) ||
    cl.operators && x.1 == .operator &&
      (x.2 == "..".toList || (x.2 == ['-'] || x.2 == ['+']) && lacksOperand before)

/-- Is a gap closed because of the lexeme behind it? -/
def before (cl : Closing) (y : Lexeme) : Bool :=
  cl.punctuation && y.1 == .punctuation &&
      [")", "]", "\x7d", ",", ":", ".", "|"].any (·.toList == y.2) ||
    cl.operators && y.1 == .operator && y.2 == "..".toList

/-- Is the gap between two lexemes closed? -/
def closes (cl : Closing) (before : List Lexeme) (x y : Lexeme) : Bool :=
  cl.after before x || cl.before y

end Closing

/-- Is there a line break in the layout? -/
def hasBreak (g : List Char) : Bool := g.any fun c => c == '\n' || c == '\r'

/-! ### Rows that run together -/

/-- `.` or `..` and another dot: a range or a spread. -/
def weldsDots (x y : Lexeme) : Bool :=
  (x.2 == ".".toList || x.2 == "..".toList) && y.2.head? == some '.'

/-- A sign and the end of a construct: an end that trims. -/
def weldsEnd (x y : Lexeme) : Bool :=
  x.2 == "-".toList && ("\x7d\x7d".toList.isPrefixOf y.2 || "%\x7d".toList.isPrefixOf y.2)

/-- Digits, a dot and digits: a number. -/
def weldsFraction (x y z : Lexeme) : Bool :=
  x.2.all Char.isDigit && y.2 == ".".toList && z.2.head?.any Char.isDigit

/-- `b`, a minus and `or`, `xor` or `and`: an operator, unless the `b` is an attribute. -/
def weldsBitwise (before : List Lexeme) (x y z : Lexeme) : Bool :=
  x.2 == "b".toList && y.2 == "-".toList && !endsAccess before.reverse &&
    ["or", "xor", "and"].any fun w => ((Text.after? w.toList z.2).any Operator.atBoundary)

/-- A number, an `e`, a sign and digits: a number. -/
def weldsExponent (w x y z : Lexeme) : Bool :=
  w.2.all (fun c => c.isDigit || c == '.') && (x.2 == "e".toList || x.2 == "E".toList) &&
    (y.2 == "-".toList || y.2 == "+".toList) && z.2.head?.any Char.isDigit

/-- Do these lexemes, after others with the last one first, start with another lexeme when they are
    written together? -/
def welds (before : List Lexeme) : List Lexeme → Bool
  | [x, y] => weldsDots x y || weldsEnd x y
  | [x, y, z] => weldsFraction x y z || weldsBitwise before x y z
  | [w, x, y, z] => weldsExponent w x y z
  | _ => false

/-- Is the gap empty, or will it be? -/
def Closing.shuts (cl : Closing) (before : List Lexeme) (x y : Lexeme) (g : List Char) : Bool :=
  g.isEmpty || !hasBreak g && cl.closes before x y

/-- Are all the gaps between these lexemes empty, or will they be? -/
def Closing.shutsAll (cl : Closing) : List Lexeme → List (Lexeme × List Char) → Bool
  | before, (x, g) :: (y, h) :: row =>
    cl.shuts before x y g && cl.shutsAll (x :: before) ((y, h) :: row)
  | _, _ => true

/-- Does a row start with lexemes that run together? -/
def stickyAt (cl : Closing) (before : List Lexeme) (row : List (Lexeme × List Char)) : Bool :=
  [2, 3, 4].any fun n =>
    welds before ((row.take n).map Prod.fst) && cl.shutsAll before (row.take n)

/-- Do lexemes run together somewhere in a row? -/
def sticky (cl : Closing) : List Lexeme → List (Lexeme × List Char) → Bool
  | _, [] => false
  | before, (x, g) :: row => stickyAt cl before ((x, g) :: row) || sticky cl (x :: before) row

/-! ### Rows that fit -/

/-- Is a gap opened because of the lexeme in front of it? -/
def opensAfter (x : Lexeme) : Bool :=
  [.variableStart, .blockStart, .operator].contains x.1 ||
    x.1 == .punctuation && (x.2 == ",".toList || x.2 == ":".toList)

/-- Is a gap opened because of the lexeme behind it? -/
def opensBefore (y : Lexeme) : Bool := [.variableEnd, .blockEnd, .operator].contains y.1

/-- What holds where the lexeme of a cell meets the rest of its row. -/
structure Joint (before : List Lexeme) (c : Cell) (row : List Cell) : Prop where
  value : c.lexeme.2 ≠ []
  old : IsGap c.old
  new : IsGap c.new
  /-- No letter stands in front of a character that would continue its word. -/
  apart : c.old = [] → c.lexeme.2.getLast?.any Char.isAlpha = true →
    ∀ d ∈ row.head?, d.lexeme.2.head?.any Text.isWordChar = false
  opens : c.old = [] → c.new ≠ [] →
    ∀ d ∈ row.head?, (opensAfter c.lexeme || opensBefore d.lexeme) = true
  closes : c.old ≠ [] → c.new = [] →
    ∀ d ∈ row.head?, Closing.all.closes before c.lexeme d.lexeme = true
  /-- Lexemes that would run together do not come together. -/
  unwelded : ∀ n, welds before (((c :: row).take n).map Cell.lexeme) = true →
    (∀ e ∈ ((c :: row).take n).dropLast, e.new = []) →
    ∀ e ∈ ((c :: row).take n).dropLast, e.old = []

/-- The new text of a row is as good as the old one. -/
def Fits : List Lexeme → List Cell → Prop
  | _, [] => True
  | before, c :: row => Joint before c row ∧ Fits (c.lexeme :: before) row

/-! ### Words in both texts -/

/-- A word at the start of the new text of a row goes through a gap that was closed. -/
inductive Straddles : List Char → List Cell → Prop
  | here {w q : List Char} {c d : Cell} {row : List Cell} (hold : c.old ≠ []) (hnew : c.new = [])
      (hw : w = c.lexeme.2 ++ q) (hne : q ≠ []) (hq : q <+: rowText Cell.new (d :: row)) :
    Straddles w (c :: d :: row)
  | later {w q : List Char} {c : Cell} {row : List Cell} (hold : c.old = []) (hnew : c.new = [])
      (hw : w = c.lexeme.2 ++ q) (h : Straddles q row) :
    Straddles w (c :: row)

theorem isWordChar_of_isLayout {a : Char} (h : Text.isLayout a = true) :
    Text.isWordChar a = false := by
  simpa using of_isLayout (p := (!Text.isWordChar ·)) (by decide +kernel) h

theorem atBoundary_gap_append {g t : List Char} (hg : IsGap g) (hne : g ≠ []) :
    Operator.atBoundary (g ++ t) = true := by
  cases g with
  | nil => exact absurd rfl hne
  | cons a g => simp [Operator.atBoundary, isWordChar_of_isLayout (hg a List.mem_cons_self)]

theorem atBoundary_row {side : Cell → List Char} {before : List Lexeme} {c : Cell} {row : List Cell}
    (hgap : IsGap (side c)) (hfit : Fits before row)
    (h : side c = [] → ∀ d ∈ row.head?, d.lexeme.2.head?.any Text.isWordChar = false) :
    Operator.atBoundary (side c ++ rowText side row) = true := by
  by_cases hnil : side c = []
  · cases row with
    | nil => simp [hnil, Operator.atBoundary]
    | cons d row =>
      have hd := h hnil d rfl
      rw [hnil, List.nil_append, rowText_cons]
      cases hv : d.lexeme.2 with
      | nil => exact absurd hv hfit.1.value
      | cons a v =>
        rw [hv] at hd
        simpa [Operator.atBoundary] using hd
  · exact atBoundary_gap_append hgap hnil

theorem Joint.atBoundary {before : List Lexeme} {c : Cell} {row : List Cell}
    (h : Joint before c row) (hfit : Fits (c.lexeme :: before) row)
    (hletter : c.lexeme.2.getLast?.any Char.isAlpha = true) :
    Operator.atBoundary (c.old ++ rowText Cell.old row) = true :=
  atBoundary_row h.old hfit fun hold => h.apart hold hletter

theorem IsGap.eq_nil {g t q : List Char} {b : Char} (hg : IsGap g) (h : g ++ t = b :: q)
    (hb : Text.isLayout b = false) : g = [] := by
  cases g with
  | nil => rfl
  | cons a g =>
    obtain ⟨rfl, -⟩ := List.cons.inj h
    rw [hg a List.mem_cons_self] at hb
    cases hb

/-- A word in the new text is a word in the old one, and ends there if it ends in the new one;
    unless a closed gap goes through it. -/
theorem word_old {before : List Lexeme} {row : List Cell} {w q' : List Char}
    (hfit : Fits before row) (hsolid : ∀ a ∈ w, Text.isLayout a = false) (hne : w ≠ [])
    (h : rowText Cell.new row = w ++ q') :
    (∃ q, rowText Cell.old row = w ++ q ∧ (w.getLast?.any Char.isAlpha = true →
      Operator.atBoundary q' = true → Operator.atBoundary q = true)) ∨ Straddles w row := by
  induction row generalizing before w with
  | nil =>
    rw [rowText_nil] at h
    exact absurd (List.append_eq_nil_iff.1 h.symm).1 hne
  | cons c row ih =>
    obtain ⟨hjoint, hrest⟩ := hfit
    rw [rowText_cons] at h ⊢
    rcases List.append_eq_append_iff.1 h with ⟨w₂, rfl, h₂⟩ | ⟨z, hz, rfl⟩
    · by_cases hw₂ : w₂ = []
      · subst hw₂
        rw [List.append_nil]
        exact .inl ⟨_, rfl, fun hletter _ => hjoint.atBoundary hrest hletter⟩
      · -- The word goes on behind the lexeme, so there is no gap in the new text.
        have hnew : c.new = [] := by
          cases w₂ with
          | nil => exact absurd rfl hw₂
          | cons b w₂ => exact hjoint.new.eq_nil h₂ (hsolid b (by simp))
        rw [hnew, List.nil_append] at h₂
        by_cases hold : c.old = []
        · rcases ih hrest (fun a ha => hsolid a (List.mem_append_right _ ha)) hw₂ h₂ with
            ⟨q, hq, hend⟩ | hstraddles
          · refine .inl ⟨q, by simp [hold, hq], ?_⟩
            rwa [List.getLast?_append, List.getLast?_eq_some_getLast hw₂, Option.some_or,
              ← List.getLast?_eq_some_getLast hw₂]
          · exact .inr (.later hold hnew rfl hstraddles)
        · cases row with
          | nil => exact absurd (List.append_eq_nil_iff.1 h₂.symm).1 hw₂
          | cons d row => exact .inr (.here hold hnew rfl hw₂ ⟨q', h₂.symm⟩)
    · refine .inl ⟨z ++ (c.old ++ rowText Cell.old row), by rw [hz, List.append_assoc], ?_⟩
      intro hletter hend
      cases z with
      | nil =>
        rw [List.append_nil] at hz
        rw [← hz] at hletter
        exact hjoint.atBoundary hrest hletter
      | cons a z => exact hend

end TwigStyle
