import TwigStyle.Proofs.Relaid

/-!
# Words of template text

Template text and comment bodies are cut into words and layout.  As a row this is `Prose`: every
lexeme is a word, and there is layout between two words.  A row is prose if and only if cutting its
text gives it back (`prose_of_pieces` and `laid_of_prose`), so prose with other layout is read as
prose with that layout, and the delimiter behind it is found (`find_prose`).
-/

namespace TwigStyle

/-- The lexemes of a text outside of code. -/
def pieceLexemes (kind : Lexeme.LayoutClass → TokenKind) (t : List Char) : List Lexeme :=
  (Lexeme.layoutPieces t).map fun p => (kind p.1, p.2)

theorem textLexemes_eq (t : List Char) :
    textLexemes t = pieceLexemes Lexeme.LayoutClass.codeKind t := rfl

theorem commentLexemes_eq (t : List Char) :
    commentLexemes t = pieceLexemes Lexeme.LayoutClass.commentKind t := rfl

/-- Words are the only pieces that are no layout. -/
def TellsLayout (kind : Lexeme.LayoutClass → TokenKind) : Prop :=
  ∀ cls, TokenKind.layout.contains (kind cls) = (cls != .text)

theorem codeKind_tells : TellsLayout Lexeme.LayoutClass.codeKind := by
  intro cls
  cases cls <;> rfl

theorem commentKind_tells : TellsLayout Lexeme.LayoutClass.commentKind := by
  intro cls
  cases cls <;> rfl

/-! ### Cutting layout and words -/

section Pieces

variable {kind : Lexeme.LayoutClass → TokenKind} {u w : List Char}

@[simp] theorem pieceLexemes_nil : pieceLexemes kind [] = [] := by
  simp [pieceLexemes, Lexeme.layoutPieces]

theorem pieceLexemes_cons (c : Char) (t : List Char) :
    pieceLexemes kind (c :: t) =
      (kind (Lexeme.layoutAt c t).1, c :: t.take (Lexeme.layoutAt c t).2) ::
        pieceLexemes kind (t.drop (Lexeme.layoutAt c t).2) := by
  rw [pieceLexemes, Lexeme.layoutPieces]
  rfl

/-- Layout in front of a text is layout in front of its words. -/
theorem laid_pieces_gap (hkind : TellsLayout kind) {g : List Char} (hg : IsGap g)
    (t : List Char) :
    laid (pieceLexemes kind (g ++ t)) =
      (g ++ (laid (pieceLexemes kind t)).1, (laid (pieceLexemes kind t)).2) := by
  generalize hn : (g ++ t).length = n
  induction n generalizing g t with
  | zero =>
    obtain ⟨rfl, rfl⟩ := List.append_eq_nil_iff.1 (List.length_eq_zero_iff.1 hn)
    rfl
  | succ n ih =>
    cases g with
    | nil => rfl
    | cons c g =>
      obtain ⟨hcls, htake⟩ := Lexeme.layoutAt_of_layout (hg c List.mem_cons_self) (g ++ t)
      have hlen : (g ++ t).length = n := by simpa using hn
      have hg' : IsGap g := fun a ha => hg a (List.mem_cons_of_mem c ha)
      rw [List.cons_append, pieceLexemes_cons]
      generalize (Lexeme.layoutAt c (g ++ t)).2 = m at htake ⊢
      rw [laid_cons_layout (by rw [Lexeme.isLayout, hkind, bne_iff_ne]; exact hcls)]
      -- The first piece and the rest make up the text after the first character.
      have hrest := ih htake ((g ++ t).drop m) (by rw [List.take_append_drop, hlen])
      rw [List.take_append_drop, ih hg' t hlen] at hrest
      obtain ⟨h₁, h₂⟩ := Prod.mk.inj hrest
      rw [← h₂]
      simp [← h₁]

theorem pieceLexemes_word (hw : ∀ a ∈ w, Text.isLayout a = false) (hne : w ≠ [])
    (hu : ∀ a ∈ u.head?, Text.isLayout a = true) :
    pieceLexemes kind (w ++ u) = (kind .text, w) :: pieceLexemes kind u := by
  cases w with
  | nil => exact absurd rfl hne
  | cons c w =>
    have hrun : Lexeme.runLength (!Text.isLayout ·) (w ++ u) = w.length := by
      rw [Lexeme.runLength_append_eq_iff]
      exact ⟨fun a ha => by simp [hw a (List.mem_cons_of_mem c ha)],
        fun a ha => by simp [hu a ha]⟩
    rw [List.cons_append, pieceLexemes_cons, Lexeme.layoutAt_of_solid (hw c List.mem_cons_self)]
    simp only [hrun, List.take_left, List.drop_left]

theorem laid_pieces_word (hkind : TellsLayout kind) (hw : ∀ a ∈ w, Text.isLayout a = false)
    (hne : w ≠ []) (hu : ∀ a ∈ u.head?, Text.isLayout a = true) :
    laid (pieceLexemes kind (w ++ u)) =
      ([], ((kind .text, w), (laid (pieceLexemes kind u)).1) :: (laid (pieceLexemes kind u)).2) := by
  rw [pieceLexemes_word hw hne hu, laid_cons_solid (by rw [Lexeme.isLayout, hkind]; rfl)]

end Pieces

/-! ### Prose -/

/-- A row of words with layout between them. -/
def Prose (k : TokenKind) : List (Lexeme × List Char) → Prop
  | [] => True
  | (l, g) :: row => l.1 = k ∧ l.2 ≠ [] ∧ (∀ a ∈ l.2, Text.isLayout a = false) ∧ IsGap g ∧
      (row ≠ [] → g ≠ []) ∧ Prose k row

section Prose

variable {kind : Lexeme.LayoutClass → TokenKind}

theorem prose_of_pieces (hkind : TellsLayout kind) (t : List Char) :
    IsGap (laid (pieceLexemes kind t)).1 ∧
      Prose (kind .text) (laid (pieceLexemes kind t)).2 := by
  generalize hn : t.length = n
  induction n using Nat.strongRecOn generalizing t with
  | ind n ih =>
    have hlayout : IsGap (t.takeWhile Text.isLayout) := fun a ha => of_mem_takeWhile ha
    have hsplit := List.takeWhile_append_dropWhile (p := Text.isLayout) (l := t)
    rw [← hsplit, laid_pieces_gap hkind hlayout]
    cases hrest : t.dropWhile Text.isLayout with
    | nil =>
      rw [pieceLexemes_nil, laid_nil, List.append_nil]
      exact ⟨hlayout, trivial⟩
    | cons a r =>
      have ha : Text.isLayout a = false := by
        have := List.head?_dropWhile_not Text.isLayout t
        rw [hrest] at this
        simpa using this
      have hword : (a :: r).takeWhile (!Text.isLayout ·) = a :: r.takeWhile (!Text.isLayout ·) :=
        List.takeWhile_cons_of_pos (by simp [ha])
      have hu : ∀ b ∈ (r.dropWhile (!Text.isLayout ·)).head?, Text.isLayout b = true := by
        intro b hb
        have := List.head?_dropWhile_not (!Text.isLayout ·) r
        rw [Option.mem_def.1 hb] at this
        simpa using this
      have hw : ∀ b ∈ a :: r.takeWhile (!Text.isLayout ·), Text.isLayout b = false := by
        intro b hb
        rw [← hword] at hb
        simpa using of_mem_takeWhile hb
      have hlen : (r.dropWhile (!Text.isLayout ·)).length < n := by
        have h₁ := (List.dropWhile_suffix (!Text.isLayout ·) (l := r)).length_le
        have h₂ := (List.dropWhile_suffix Text.isLayout (l := t)).length_le
        rw [hrest, List.length_cons] at h₂
        omega
      obtain ⟨hgap, hprose⟩ := ih _ hlen (r.dropWhile (!Text.isLayout ·)) rfl
      rw [← List.takeWhile_append_dropWhile (p := (!Text.isLayout ·)) (l := r), ← List.cons_append,
        laid_pieces_word hkind hw (List.cons_ne_nil _ _) hu, List.append_nil]
      refine ⟨hlayout, rfl, List.cons_ne_nil _ _, hw, hgap, ?_, hprose⟩
      -- Words go on behind layout only.
      intro hmore hnone
      cases hrest' : r.dropWhile (!Text.isLayout ·) with
      | nil =>
        rw [hrest', pieceLexemes_nil] at hmore
        exact hmore rfl
      | cons b u =>
        rw [hrest'] at hu hnone
        rw [← List.singleton_append, laid_pieces_gap hkind] at hnone
        · cases hnone
        · intro c hc
          rw [List.mem_singleton.1 hc]
          exact hu b rfl

theorem laid_of_prose (hkind : TellsLayout kind) {g : List Char}
    {row : List (Lexeme × List Char)} (hg : IsGap g) (hprose : Prose (kind .text) row) :
    laid (pieceLexemes kind (g ++ row.flatMap fun p => p.1.2 ++ p.2)) = (g, row) := by
  rw [laid_pieces_gap hkind hg]
  induction row generalizing g with
  | nil => simp
  | cons p row ih =>
    obtain ⟨⟨k, w⟩, h⟩ := p
    obtain ⟨rfl, hne, hw, hh, hbetween, hrest⟩ := hprose
    have hhead : ∀ a ∈ (h ++ row.flatMap fun p => p.1.2 ++ p.2).head?, Text.isLayout a = true := by
      cases h with
      | cons b h =>
        intro a ha
        obtain rfl : b = a := by simpa using ha
        exact hh b List.mem_cons_self
      | nil =>
        cases row with
        | nil => exact nofun
        | cons q row => exact absurd rfl (hbetween (List.cons_ne_nil q row))
    rw [List.flatMap_cons, List.append_assoc, laid_pieces_word hkind hw hne hhead,
      laid_pieces_gap hkind hh, ih hh hrest]
    simp

end Prose

/-! ### Prose with other layout -/

theorem Relaid.append {t t' u u' : List Char} (h : Relaid t t') (hu : Relaid u u') :
    Relaid (t ++ u) (t' ++ u') := by
  induction h with
  | nil => exact hu
  | solid hc _ ih => exact .solid hc ih
  | gap hg hg' hne hne' _ ih =>
    rw [List.append_assoc, List.append_assoc]
    exact .gap hg hg' hne hne' ih

theorem Relaid.of_solid {w : List Char} (hw : ∀ a ∈ w, Text.isLayout a = false) : Relaid w w := by
  induction w with
  | nil => exact .nil
  | cons a w ih =>
    exact .solid (hw a List.mem_cons_self) (ih fun b hb => hw b (List.mem_cons_of_mem a hb))

theorem Relaid.of_gap {g g' : List Char} (hg : IsGap g) (hg' : IsGap g')
    (hsame : g = [] ↔ g' = []) : Relaid g g' := by
  by_cases hne : g = []
  · rw [hne, hsame.1 hne]
    exact .nil
  · have h := Relaid.gap hg hg' hne (fun h => hne (hsame.2 h)) .nil
    rwa [List.append_nil, List.append_nil] at h

section Rows

variable {k : TokenKind} {row : List Cell}

theorem relaid_of_prose (hprose : Prose k (rowLaid Cell.old row)) (hnew : ∀ c ∈ row, IsGap c.new)
    (hsame : ∀ c ∈ row, c.old = [] ↔ c.new = []) :
    Relaid (rowText Cell.old row) (rowText Cell.new row) := by
  induction row with
  | nil => exact .nil
  | cons c row ih =>
    obtain ⟨-, -, hw, hgap, -, hrest⟩ := hprose
    rw [rowText_cons, rowText_cons]
    refine (Relaid.of_solid hw).append (Relaid.append ?_ ?_)
    · exact .of_gap hgap (hnew c List.mem_cons_self) (hsame c List.mem_cons_self)
    · exact ih hrest (fun d hd => hnew d (List.mem_cons_of_mem c hd))
        fun d hd => hsame d (List.mem_cons_of_mem c hd)

theorem prose_new (hprose : Prose k (rowLaid Cell.old row)) (hnew : ∀ c ∈ row, IsGap c.new)
    (hsame : ∀ c ∈ row.dropLast, c.old = [] ↔ c.new = []) : Prose k (rowLaid Cell.new row) := by
  induction row with
  | nil => trivial
  | cons c row ih =>
    obtain ⟨hk, hne, hw, -, hbetween, hrest⟩ := hprose
    refine ⟨hk, hne, hw, hnew c List.mem_cons_self, ?_, ?_⟩
    · intro hmore hnone
      cases row with
      | nil => exact hmore rfl
      | cons d row =>
        rw [List.dropLast_cons_cons] at hsame
        exact hbetween (List.cons_ne_nil _ _) ((hsame c List.mem_cons_self).2 hnone)
    · refine ih hrest (fun d hd => hnew d (List.mem_cons_of_mem c hd)) fun d hd => hsame d ?_
      cases row with
      | nil => cases hd
      | cons e row =>
        rw [List.dropLast_cons_cons]
        exact List.mem_cons_of_mem c hd

theorem Prose.split {rows rows' : List (Lexeme × List Char)} (h : Prose k (rows ++ rows')) :
    Prose k rows ∧ Prose k rows' := by
  induction rows with
  | nil => exact ⟨trivial, h⟩
  | cons p rows ih =>
    obtain ⟨hk, hne, hw, hgap, hbetween, hrest⟩ := h
    obtain ⟨h₁, h₂⟩ := ih hrest
    exact ⟨⟨hk, hne, hw, hgap, fun hmore => hbetween (by simp [hmore]), h₁⟩, h₂⟩

end Rows

namespace Delimiter

variable {rest value : List Char}

theorem stops_of_at? {k : Construct} (h : at? (value ++ rest) = some (k, value, rest))
    (rest' : List Char) : Stops (value ++ rest) (value ++ rest') := by
  obtain ⟨d, marker, rfl, hd, -⟩ := at?_eq_some_iff.1 h
  refine ⟨?_, .inl ⟨_, _, rfl, rfl⟩⟩
  simp [start_cons_solid (c := '\x7b') rfl, start_cons_solid (isLayout_of_construct? hd)]

theorem find_layout (verbatim : Bool) (hg : IsGap g) : find verbatim 0 g = (g, none) := by
  have h := find_gap verbatim hg []
  rw [List.append_nil] at h
  rw [h, find, List.append_nil]

variable {k : TokenKind} {row : List Cell} {verbatim : Bool} {g g' : List Char}

/-- The delimiter behind some words is found behind the same words with other layout. -/
theorem find_prose {construct : Construct} {rest' : List Char} (hg : IsGap g) (hg' : IsGap g')
    (hprose : Prose k (rowLaid Cell.old row)) (hnew : ∀ c ∈ row, IsGap c.new)
    (hsame : ∀ c ∈ row, c.old = [] ↔ c.new = [])
    (h : find verbatim 0 (g ++ (rowText Cell.old row ++ (value ++ rest))) =
      (g ++ rowText Cell.old row, some (construct, value, rest)))
    (hat : at? (value ++ rest') = some (construct, value, rest'))
    (hverbatim : verbatim = true → endsVerbatim (value ++ rest') = true) :
    find verbatim 0 (g' ++ (rowText Cell.new row ++ (value ++ rest'))) =
      (g' ++ rowText Cell.new row, some (construct, value, rest')) := by
  obtain ⟨hat₀, hverbatim₀⟩ := find_found h
  have hfind := find_of_at? hat₀ hverbatim₀
  have hfind' := find_of_at? hat hverbatim
  have hstop := stops_of_at? hat₀ rest'
  rw [find_gap verbatim hg] at h
  have h₁ := List.append_cancel_left (Prod.mk.inj h).1
  rw [find_gap verbatim hg', find_relaid (relaid_of_prose hprose hnew hsame) hstop
    (Nat.zero_le _) (.inr (by rw [hfind])) (by rw [h₁, hfind, List.append_nil]), hfind',
    List.append_nil]

theorem find_prose_end (hg : IsGap g) (hg' : IsGap g') (hprose : Prose k (rowLaid Cell.old row))
    (hnew : ∀ c ∈ row, IsGap c.new) (hsame : ∀ c ∈ row.dropLast, c.old = [] ↔ c.new = [])
    (h : find verbatim 0 (g ++ rowText Cell.old row) = (g ++ rowText Cell.old row, none)) :
    find verbatim 0 (g' ++ rowText Cell.new row) = (g' ++ rowText Cell.new row, none) := by
  rcases List.eq_nil_or_concat row with rfl | ⟨init, c, rfl⟩
  · rw [rowText_nil, List.append_nil, find_layout verbatim hg']
  · rw [List.concat_eq_append] at hprose hnew hsame h ⊢
    rw [List.dropLast_concat] at hsame
    rw [rowLaid, List.map_append] at hprose
    obtain ⟨hinit, -, -, hw, hgap, -, -⟩ := hprose.split
    have htext : ∀ side : Cell → List Char, rowText side (init ++ [c]) =
        (rowText side init ++ c.lexeme.2) ++ side c := by
      intro side
      simp [rowText]
    have hc' : IsGap c.new := hnew c (by simp)
    have hrelaid : Relaid (rowText Cell.old init ++ c.lexeme.2)
        (rowText Cell.new init ++ c.lexeme.2) :=
      (relaid_of_prose hinit (fun d hd => hnew d (by simp [hd])) hsame).append (.of_solid hw)
    have hstart : ∀ {e : List Char}, IsGap e → start e = [] := by
      intro e he
      cases e with
      | nil => rfl
      | cons a e => exact start_of_layout (he a List.mem_cons_self) e
    have hstop : Stops c.old c.new :=
      ⟨by rw [hstart hgap, hstart hc'], .inr ⟨hgap, hc'⟩⟩
    rw [htext] at h ⊢
    rw [find_gap verbatim hg] at h
    have h₁ := List.append_cancel_left (Prod.mk.inj h).1
    rw [find_gap verbatim hg', find_relaid hrelaid hstop (Nat.zero_le _) (.inl hgap)
      (by rw [h₁, find_layout verbatim hgap]), find_layout verbatim hc']

end Delimiter

end TwigStyle
