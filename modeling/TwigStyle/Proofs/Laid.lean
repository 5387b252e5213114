import TwigStyle.Proofs.Gaps
import TwigStyle.Proofs.Lookahead

/-!
# Lexemes and the layout between them

`laid` looks at the lexemes of a template as the layout in front, and then each lexeme that is no
layout together with the layout behind it.

A `Cell` has two layouts behind its lexeme, an old and a new one.  A row of cells is thus two texts
with the same lexemes, and a change of the layout of a template is a row: its old text is the
template and its new text what the change makes of it.
-/

namespace TwigStyle

/-- Is the lexeme layout? -/
def Lexeme.isLayout (l : Lexeme) : Bool := TokenKind.layout.contains l.1

/-- The layout in front, and each lexeme that is no layout with the layout behind it. -/
def laid : List Lexeme → List Char × List (Lexeme × List Char)
  | [] => ([], [])
  | l :: ls =>
    if Lexeme.isLayout l then (l.2 ++ (laid ls).1, (laid ls).2)
    else ([], (l, (laid ls).1) :: (laid ls).2)

section Laid

variable {l : Lexeme} {ls ms : List Lexeme} {g : List Char}

@[simp] theorem laid_nil : laid [] = ([], []) := rfl

theorem laid_cons_layout (hl : Lexeme.isLayout l = true) :
    laid (l :: ls) = (l.2 ++ (laid ls).1, (laid ls).2) := if_pos hl

theorem laid_cons_solid (hl : Lexeme.isLayout l = false) :
    laid (l :: ls) = ([], (l, (laid ls).1) :: (laid ls).2) := if_neg (by simp [hl])

theorem laid_append_of_layout (hls : ∀ l ∈ ls, Lexeme.isLayout l = true) :
    laid (ls ++ ms) = (spell ls ++ (laid ms).1, (laid ms).2) := by
  induction ls with
  | nil => rfl
  | cons l ls ih =>
    rw [List.cons_append, laid_cons_layout (hls l List.mem_cons_self),
      ih fun m hm => hls m (List.mem_cons_of_mem l hm)]
    simp

theorem meaningful_cons_layout (hl : Lexeme.isLayout l = true) :
    meaningful (l :: ls) = meaningful ls :=
  List.filter_cons_of_neg (by simpa [Lexeme.isLayout] using hl)

theorem meaningful_cons_solid (hl : Lexeme.isLayout l = false) :
    meaningful (l :: ls) = l :: meaningful ls :=
  List.filter_cons_of_pos (by simpa [Lexeme.isLayout] using hl)

theorem meaningful_of_layout (hls : ∀ l ∈ ls, Lexeme.isLayout l = true) : meaningful ls = [] := by
  unfold meaningful
  rw [List.filter_eq_nil_iff]
  intro l hl
  simpa [Lexeme.isLayout] using hls l hl

theorem layout_of_laid (h : laid ls = (g, [])) :
    (∀ l ∈ ls, Lexeme.isLayout l = true) ∧ spell ls = g := by
  induction ls generalizing g with
  | nil =>
    cases h
    exact ⟨nofun, rfl⟩
  | cons l ls ih =>
    cases hl : Lexeme.isLayout l with
    | false =>
      rw [laid_cons_solid hl] at h
      cases h
    | true =>
      rw [laid_cons_layout hl] at h
      obtain ⟨rfl, hrow⟩ := Prod.mk.inj h
      obtain ⟨hls, hspell⟩ := ih (Prod.ext rfl hrow)
      refine ⟨?_, by rw [spell_cons, hspell]⟩
      intro m hm
      rcases List.mem_cons.1 hm with rfl | hm
      · exact hl
      · exact hls m hm

theorem split_of_laid {x : Lexeme} {after : List Char} {row : List (Lexeme × List Char)}
    (h : laid ls = (g, (x, after) :: row)) :
    ∃ lay rest, ls = lay ++ x :: rest ∧ (∀ l ∈ lay, Lexeme.isLayout l = true) ∧ spell lay = g ∧
      Lexeme.isLayout x = false ∧ laid rest = (after, row) := by
  induction ls generalizing g with
  | nil => cases h
  | cons l ls ih =>
    cases hl : Lexeme.isLayout l with
    | false =>
      rw [laid_cons_solid hl] at h
      cases h
      exact ⟨[], ls, rfl, nofun, rfl, hl, rfl⟩
    | true =>
      rw [laid_cons_layout hl] at h
      obtain ⟨rfl, hrow⟩ := Prod.mk.inj h
      obtain ⟨lay, rest, rfl, hlay, hspell, hx, hrest⟩ := ih (Prod.ext rfl hrow)
      refine ⟨l :: lay, rest, rfl, ?_, by rw [spell_cons, hspell], hx, hrest⟩
      intro m hm
      rcases List.mem_cons.1 hm with rfl | hm
      · exact hl
      · exact hlay m hm

theorem meaningful_eq_laid (ls : List Lexeme) : meaningful ls = (laid ls).2.map Prod.fst := by
  induction ls with
  | nil => rfl
  | cons l ls ih =>
    cases hl : Lexeme.isLayout l with
    | false =>
      rw [laid_cons_solid hl, List.map_cons, ← ih]
      exact List.filter_cons_of_pos (by simpa [Lexeme.isLayout] using hl)
    | true =>
      rw [laid_cons_layout hl, ← ih]
      exact List.filter_cons_of_neg (by simpa [Lexeme.isLayout] using hl)

theorem spell_eq_laid (ls : List Lexeme) :
    spell ls = (laid ls).1 ++ (laid ls).2.flatMap fun p => p.1.2 ++ p.2 := by
  induction ls with
  | nil => rfl
  | cons l ls ih =>
    cases hl : Lexeme.isLayout l with
    | false => simp [laid_cons_solid hl, ih]
    | true => simp [laid_cons_layout hl, ih]

end Laid

/-! ### Rows -/

/-- A lexeme that is no layout, with an old and a new layout behind it. -/
structure Cell where
  lexeme : Lexeme
  old : List Char
  new : List Char
deriving DecidableEq, Repr

/-- The text of a row with one of its layouts. -/
def rowText (side : Cell → List Char) (row : List Cell) : List Char :=
  row.flatMap fun c => c.lexeme.2 ++ side c

/-- The lexemes of a row with one of its layouts. -/
def rowLaid (side : Cell → List Char) (row : List Cell) : List (Lexeme × List Char) :=
  row.map fun c => (c.lexeme, side c)

@[simp] theorem rowText_nil (side : Cell → List Char) : rowText side [] = [] := rfl

@[simp] theorem rowText_cons (side : Cell → List Char) (c : Cell) (row : List Cell) :
    rowText side (c :: row) = c.lexeme.2 ++ (side c ++ rowText side row) := by
  simp [rowText]

@[simp] theorem rowLaid_nil (side : Cell → List Char) : rowLaid side [] = [] := rfl

@[simp] theorem rowLaid_cons (side : Cell → List Char) (c : Cell) (row : List Cell) :
    rowLaid side (c :: row) = (c.lexeme, side c) :: rowLaid side row := rfl

theorem spell_of_laid {ls : List Lexeme} {side : Cell → List Char} {g : List Char}
    {row : List Cell} (h : laid ls = (g, rowLaid side row)) : spell ls = g ++ rowText side row := by
  rw [spell_eq_laid, h, rowText, rowLaid, List.flatMap_map]

end TwigStyle
