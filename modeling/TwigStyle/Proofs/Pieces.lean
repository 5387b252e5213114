import TwigStyle.Proofs.Links

/-!
# The row that a pass makes of a template

A `Piece` is a token and the value that a pass gives to it: layout becomes other layout, and next to
anything else some layout is put.  `cells` gathers the pieces of a template to a row of cells, whose old
text is the template and whose new text is what the pass makes of it.
-/

namespace TwigStyle

/-- A lexeme and its new value, which is `body` with some layout in front and behind. -/
structure Piece where
  lexeme : Lexeme
  front : List Char
  body : List Char
  back : List Char

namespace Piece

/-- The new value. -/
def text (p : Piece) : List Char := p.front ++ p.body ++ p.back

/-- Layout becomes layout, and anything else stays what it is. -/
structure Sound (p : Piece) : Prop where
  genuine : p.lexeme.Genuine
  front : IsGap p.front
  back : IsGap p.back
  layout : Lexeme.isLayout p.lexeme = true → IsGap p.body ∧ p.front = [] ∧ p.back = []
  solid : Lexeme.isLayout p.lexeme = false → p.body = p.lexeme.2

end Piece

/-- The old and the new layout in front, and the row of cells. -/
def cells : List Piece → List Char × List Char × List Cell
  | [] => ([], [], [])
  | p :: ps =>
    if Lexeme.isLayout p.lexeme then
      (p.lexeme.2 ++ (cells ps).1, p.body ++ (cells ps).2.1, (cells ps).2.2)
    else ([], p.front, ⟨p.lexeme, (cells ps).1, p.back ++ (cells ps).2.1⟩ :: (cells ps).2.2)

section Cells

variable {p : Piece} {ps : List Piece}

theorem cells_layout (hp : Lexeme.isLayout p.lexeme = true) : cells (p :: ps) =
    (p.lexeme.2 ++ (cells ps).1, p.body ++ (cells ps).2.1, (cells ps).2.2) := if_pos hp

theorem cells_solid (hp : Lexeme.isLayout p.lexeme = false) : cells (p :: ps) =
    ([], p.front, ⟨p.lexeme, (cells ps).1, p.back ++ (cells ps).2.1⟩ :: (cells ps).2.2) :=
  if_neg (by simp [hp])

theorem laid_cells (ps : List Piece) :
    laid (ps.map Piece.lexeme) = ((cells ps).1, rowLaid Cell.old (cells ps).2.2) := by
  induction ps with
  | nil => rfl
  | cons p ps ih =>
    rw [List.map_cons]
    cases hp : Lexeme.isLayout p.lexeme with
    | true => rw [laid_cons_layout hp, cells_layout hp, ih]
    | false => rw [laid_cons_solid hp, cells_solid hp, ih, rowLaid_cons]

theorem text_cells (h : ∀ p ∈ ps, p.Sound) :
    (ps.map Piece.text).flatten = (cells ps).2.1 ++ rowText Cell.new (cells ps).2.2 := by
  induction ps with
  | nil => rfl
  | cons p ps ih =>
    have hp := h p List.mem_cons_self
    rw [List.map_cons, List.flatten_cons, ih fun q hq => h q (List.mem_cons_of_mem p hq)]
    cases hl : Lexeme.isLayout p.lexeme with
    | true =>
      obtain ⟨-, hfront, hback⟩ := hp.layout hl
      simp [cells_layout hl, Piece.text, hfront, hback]
    | false => simp [cells_solid hl, Piece.text, hp.solid hl]

theorem gap_cells (h : ∀ p ∈ ps, p.Sound) :
    IsGap (cells ps).1 ∧ IsGap (cells ps).2.1 ∧
      ∀ c ∈ (cells ps).2.2, IsGap c.old ∧ IsGap c.new := by
  induction ps with
  | nil => exact ⟨isGap_nil, isGap_nil, nofun⟩
  | cons p ps ih =>
    have hp := h p List.mem_cons_self
    obtain ⟨hold, hnew, hcells⟩ := ih fun q hq => h q (List.mem_cons_of_mem p hq)
    cases hl : Lexeme.isLayout p.lexeme with
    | true =>
      rw [cells_layout hl]
      exact ⟨(hp.genuine.gap hl).append hold, (hp.layout hl).1.append hnew, hcells⟩
    | false =>
      rw [cells_solid hl]
      refine ⟨isGap_nil, hp.front, ?_⟩
      intro c hc
      rcases List.mem_cons.1 hc with rfl | hc
      · exact ⟨hold, hp.back.append hnew⟩
      · exact hcells c hc

theorem lexemes_cells (ps : List Piece) :
    (cells ps).2.2.map Cell.lexeme = meaningful (ps.map Piece.lexeme) := by
  rw [meaningful_eq_laid, laid_cells, rowLaid, List.map_map]
  rfl

theorem cells_append {lay : List Piece} (hlay : ∀ p ∈ lay, Lexeme.isLayout p.lexeme = true) :
    cells (lay ++ ps) = (spell (lay.map Piece.lexeme) ++ (cells ps).1,
      (lay.map Piece.body).flatten ++ (cells ps).2.1, (cells ps).2.2) := by
  induction lay with
  | nil => rfl
  | cons p lay ih =>
    rw [List.cons_append, cells_layout (hlay p List.mem_cons_self),
      ih fun q hq => hlay q (List.mem_cons_of_mem p hq)]
    simp

theorem exists_of_cells {d : Cell} {row : List Cell} (h : (cells ps).2.2 = d :: row) :
    ∃ lay q rest, ps = lay ++ q :: rest ∧ (∀ m ∈ lay, Lexeme.isLayout m.lexeme = true) ∧
      Lexeme.isLayout q.lexeme = false ∧ d.lexeme = q.lexeme := by
  induction ps with
  | nil => cases h
  | cons p ps ih =>
    cases hl : Lexeme.isLayout p.lexeme with
    | true =>
      rw [cells_layout hl] at h
      obtain ⟨lay, q, rest, rfl, hlay, hq, hd⟩ := ih h
      refine ⟨p :: lay, q, rest, rfl, ?_, hq, hd⟩
      intro m hm
      rcases List.mem_cons.1 hm with rfl | hm
      · exact hl
      · exact hlay m hm
    | false =>
      rw [cells_solid hl] at h
      obtain ⟨rfl, -⟩ := List.cons.inj h
      exact ⟨[], p, ps, rfl, nofun, hl, rfl⟩

/-- The gap between two pieces, with the layout `lay` between them. -/
def Piece.gapCell (p : Piece) (lay : List Piece) (q : Piece) : Cell :=
  ⟨p.lexeme, spell (lay.map Piece.lexeme), p.back ++ (lay.map Piece.body).flatten ++ q.front⟩

theorem linked_cells {cl : Closing} {before : List Lexeme}
    (h : ∀ init p lay q rest, ps = init ++ p :: (lay ++ q :: rest) →
      Lexeme.isLayout p.lexeme = false → (∀ m ∈ lay, Lexeme.isLayout m.lexeme = true) →
      Lexeme.isLayout q.lexeme = false →
      Link cl ((meaningful (init.map Piece.lexeme)).reverse ++ before) (p.gapCell lay q) q.lexeme) :
    Linked cl before (cells ps).2.2 := by
  induction ps generalizing before with
  | nil => trivial
  | cons p ps ih =>
    have hrest : Linked cl ((meaningful [p.lexeme]).reverse ++ before) (cells ps).2.2 := by
      refine ih ?_
      intro init p' lay q rest heq
      have hlink := h (p :: init) p' lay q rest (by rw [heq]; rfl)
      rw [List.map_cons, ← List.singleton_append, meaningful_append, List.reverse_append,
        List.append_assoc] at hlink
      exact hlink
    cases hl : Lexeme.isLayout p.lexeme with
    | true =>
      rw [meaningful_of_layout (by simpa using hl)] at hrest
      rw [cells_layout hl]
      exact hrest
    | false =>
      have hkeep : meaningful [p.lexeme] = [p.lexeme] :=
        List.filter_cons_of_pos (by simpa [Lexeme.isLayout] using hl)
      rw [hkeep] at hrest
      rw [cells_solid hl]
      cases hrow : (cells ps).2.2 with
      | nil => trivial
      | cons d row =>
        rw [hrow] at hrest
        obtain ⟨lay, q, rest, rfl, hlay, hq, hd⟩ := exists_of_cells hrow
        refine ⟨?_, hrest⟩
        have hlink := h [] p lay q rest rfl hl hlay hq
        rw [hd, cells_append hlay, cells_solid hq]
        simpa [Piece.gapCell] using hlink

end Cells

end TwigStyle
