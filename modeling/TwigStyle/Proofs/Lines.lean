import TwigStyle.Proofs.RowTexts

/-!
# Passes clean the lines

After one pass there are no tabs left in the indentation (`Passed.untabbed`).  Where there were none, a
pass leaves no blanks at the end of a line (`Passed.trimmed`), and where nothing else is left to be done
it makes the end of the file right (`Passed.closed`).
-/

namespace TwigStyle

/-! ### Runs of layout -/

namespace Lexeme

variable {l : Lexeme}

theorem Genuine.of_blank (h : l.Genuine) (hl : l.1 ∈ TokenKind.layout) {c : Char} (hc : c ∈ l.2)
    (hblank : c = ' ' ∨ c = '\t') :
    l.1 ∈ Layout.blanks ∧ (c = '\t' → l.1 = .tabs ∨ l.1 = .commentTabs) ∧
      ∀ d ∈ l.2, d = ' ' ∨ d = '\t' := by
  rcases h.cases hl with ⟨hkind, hrun⟩ | ⟨hkind, hrun⟩ | ⟨-, hrun⟩
  · refine ⟨by rcases hkind with hkind | hkind <;> rw [hkind] <;> decide, ?_,
      fun d hd => .inl (hrun d hd)⟩
    rintro rfl
    exact absurd (hrun _ hc) (by decide)
  · exact ⟨by rcases hkind with hkind | hkind <;> rw [hkind] <;> decide, fun _ => hkind,
      fun d hd => .inr (hrun d hd)⟩
  · exfalso
    rcases mem_lineBreak hrun hc with rfl | rfl <;> revert hblank <;> decide

end Lexeme

/-! ### Clean lines -/

namespace Ruleset

variable {rs : Ruleset} {s : TokenStream}

/-- There are no tabs in the indentation, if a rule forbids them. -/
def Untabbed (rs : Ruleset) (s : TokenStream) : Prop :=
  ∀ {width k t}, rs.Has (.indent width) → s.get? k = some t →
    t.kind = .tabs ∨ t.kind = .commentTabs → ¬Layout.inIndentation s k = true

/-- There are no blanks at the end of a line, if a rule forbids them. -/
def Trimmed (rs : Ruleset) (s : TokenStream) : Prop :=
  rs.Has .trailingSpace → ∀ e, s.kindIn e Layout.lineEnds = true → ¬Layout.blanksStart s e < e

/-- The file is empty or ends with one line break, if a rule wants it. -/
def Closed (rs : Ruleset) (s : TokenStream) : Prop :=
  rs.Has .blankEof → ∀ a c, s.Row a c → s.kindIn c [.eof] = true →
    if a = 0 then c = 0 else Layout.lineBreaks s a c = 1

end Ruleset

namespace TokenStream

variable {s : TokenStream} {a a' c k : Nat} {y : Token}

theorem Regular.exists_row_before (hs : s.Regular) (hy : s.get? c = some y)
    (hsolid : Lexeme.isLayout y.lexeme = false) : ∃ a, s.Row a c := by
  have hlt := get?_lt hy
  cases c with
  | zero => exact ⟨0, Nat.le_refl 0, fun k _ hk => by omega, ⟨y, hy, hsolid⟩, nofun⟩
  | succ c =>
    obtain ⟨x, hx⟩ := exists_get? (s := s) (i := c) (by omega)
    cases hl : Lexeme.isLayout x.lexeme with
    | false =>
      refine ⟨c + 1, Nat.le_refl _, fun k _ hk => by omega, ⟨y, hy, hsolid⟩, ?_⟩
      intro k hk
      obtain rfl : k = c := Nat.succ.inj hk
      exact ⟨x, hx, hl⟩
    | true =>
      obtain ⟨a, c', hrow, hac, hcc'⟩ :=
        hs.exists_row (kindIn_iff.2 ⟨x, hx, List.contains_iff_mem.1 hl⟩)
      rcases Nat.eq_or_lt_of_le (Nat.succ_le_of_lt hcc') with rfl | hlt'
      · exact ⟨a, hrow⟩
      · exact absurd (hrow.layout (c + 1) (by omega) hlt')
          (not_kindIn_layout hy hsolid (List.Subset.refl _))

theorem Regular.exists_tab {t : Token} (hs : s.Regular) (ht : s.get? k = some t)
    (hkind : t.kind = .tabs ∨ t.kind = .commentTabs) (hindent : Layout.inIndentation s k = true) :
    ∃ a c u v, s.Row a c ∧ s.layoutText a c = u ++ '\t' :: v ∧ (a = 0 ∨ hasBreak u = true) := by
  have htabs : ∀ kind, kind = .tabs ∨ kind = .commentTabs → kind ∈ TokenKind.layout ∧
      ¬(kind = .spaces ∨ kind = .commentSpaces) ∧ kind ∉ TokenKind.breaks := by
    rintro kind (rfl | rfl) <;> decide
  obtain ⟨hlayout, hspaces, hbreaks⟩ := htabs _ hkind
  have hin := kindIn_iff.2 ⟨t, ht, hlayout⟩
  obtain ⟨a, c, hrow, hak, hkc⟩ := hs.exists_row hin
  have hrun : ∀ d ∈ t.value, d = '\t' := by
    rcases (hs.genuine_of_get? ht).cases hlayout with h | h | h
    · exact absurd h.1 hspaces
    · exact h.2
    · exact absurd h.1 hbreaks
  obtain ⟨d, w, hvalue⟩ := List.exists_cons_of_ne_nil
    (hs.value_ne_nil ht (List.Subset.refl _) hin)
  obtain rfl : d = '\t' := hrun d (by rw [hvalue]; exact List.mem_cons_self)
  refine ⟨a, c, s.layoutText a k, w ++ s.layoutText (k + 1) c, hrow, ?_, ?_⟩
  · rw [layoutText_split ht hak hkc, hvalue]
    simp
  · refine ((hrow.inIndentation_iff hak hkc).1 hindent).imp_right ?_
    rintro ⟨m, ham, hmk, hm⟩
    exact hs.hasBreak_layoutText ham hmk hm

theorem Regular.exists_trailing {e : Nat} (hs : s.Regular)
    (hend : s.kindIn e Layout.lineEnds = true) (hstart : Layout.blanksStart s e < e) :
    ∃ a c u d v, s.Row a c ∧ s.layoutText a c = u ++ d :: v ∧ (d = ' ' ∨ d = '\t') ∧
      (v = [] ∧ s.kindIn c [.eof] = true ∨ ∃ f v', v = f :: v' ∧ (f = '\n' ∨ f = '\r')) := by
  have hsize := lt_of_kindIn hend
  obtain ⟨k, rfl⟩ : ∃ k, e = k + 1 := ⟨e - 1, by omega⟩
  -- The last blank before the end of the line.
  have hblank := Layout.blanksStart_row (Nat.le_of_lt hsize) k (by omega) (Nat.lt_succ_self k)
  obtain ⟨t, ht, hkind⟩ := kindIn_iff.1 hblank
  have hblanks : ∀ kind ∈ Layout.blanks, kind ∈ TokenKind.layout ∧ kind ∉ TokenKind.breaks := by
    decide
  obtain ⟨hlayout, hnotbreak⟩ := hblanks _ hkind
  obtain ⟨a, c, hrow, hak, hkc⟩ := hs.exists_row (kindIn_iff.2 ⟨t, ht, hlayout⟩)
  obtain ⟨w, d, hvalue⟩ : ∃ w d, t.value = w ++ [d] :=
    ⟨_, _, (List.dropLast_concat_getLast (hs.value_ne_nil ht (by decide) hblank)).symm⟩
  have hmem : d ∈ t.value := by
    rw [hvalue]
    simp
  refine ⟨a, c, s.layoutText a k ++ w, d, s.layoutText (k + 1) c, hrow, ?_, ?_, ?_⟩
  · rw [layoutText_split ht hak hkc, hvalue]
    simp
  · rcases (hs.genuine_of_get? ht).cases hlayout with ⟨-, hrun⟩ | ⟨-, hrun⟩ | ⟨hbreak, -⟩
    · exact .inl (hrun d hmem)
    · exact .inr (hrun d hmem)
    · exact absurd hbreak hnotbreak
  · -- The end of the line is the end of the file or the next token of the row.
    obtain ⟨z, hz, hzkind⟩ := kindIn_iff.1 hend
    have hends : ∀ kind ∈ Layout.lineEnds, (kind ∉ TokenKind.layout → kind ∈ [.eof]) ∧
        (kind ∈ TokenKind.layout → ¬(kind = .spaces ∨ kind = .commentSpaces) ∧
          ¬(kind = .tabs ∨ kind = .commentTabs)) := by
      decide
    obtain ⟨hsolid, hbreak⟩ := hends _ hzkind
    rcases Nat.eq_or_lt_of_le (Nat.succ_le_of_lt hkc) with rfl | hlt
    · refine .inl ⟨by simp [layoutText], kindIn_iff.2 ⟨z, hz, hsolid ?_⟩⟩
      obtain ⟨y, hy, hysolid⟩ := hrow.right
      obtain rfl : y = z := Option.some.inj (hy.symm.trans hz)
      exact Token.kind_of_solid hysolid
    · have hin := hrow.layout (k + 1) (by omega) hlt
      have hzlayout := get?_of_kindIn hz hin
      obtain ⟨hspaces, htabs⟩ := hbreak hzlayout
      obtain ⟨f, v, hzvalue⟩ :=
        List.exists_cons_of_ne_nil (hs.value_ne_nil hz (List.Subset.refl _) hin)
      have hf : f ∈ z.value := by
        rw [hzvalue]
        exact List.mem_cons_self
      refine .inr ⟨f, v ++ s.layoutText (k + 1 + 1) c, ?_, ?_⟩
      · rw [layoutText_split hz (Nat.le_refl _) hlt, hzvalue]
        simp [layoutText]
      · rcases (hs.genuine_of_get? hz).cases hzlayout with h | h | ⟨-, hrun⟩
        · exact absurd h.1 hspaces
        · exact absurd h.1 htabs
        · exact Lexeme.mem_lineBreak hrun hf

theorem Row.left_unique (h : s.Row a c) (h' : s.Row a' c) : a = a' := by
  have hle : ∀ {a a' : Nat}, s.Row a c → s.Row a' c → a' ≤ a := by
    intro a a' h h'
    apply Nat.le_of_not_lt
    intro hlt
    obtain ⟨x, hx, hsolid⟩ := h'.left (a' - 1) (by omega)
    have := h'.le
    exact not_kindIn_layout hx hsolid (List.Subset.refl _) (h.layout _ (by omega) (by omega))
  exact Nat.le_antisymm (hle h' h) (hle h h')

end TokenStream

namespace Ruleset

variable {rs : Ruleset} {s : TokenStream} {lineBreak : List Char}

theorem not_realigns (hs : s.Regular) (huntabbed : rs.Untabbed s) (htrimmed : rs.Trimmed s)
    (hclosed : rs.Closed s) (ch : Change) : ¬rs.Realigns s lineBreak ch := by
  -- The layout before the end of the file is one line break.
  have hgood : ∀ {i}, rs.Has .blankEof → s.kindIn i [.eof] = true →
      (s.previousOutside Layout.blankLines i = none → i = 0) ∧
      ∀ last, s.previousOutside Layout.blankLines i = some last →
        Layout.lineBreaks s (last + 1) i = 1 := by
    intro i hr hi
    obtain ⟨y, hy, hkind⟩ := TokenStream.kindIn_iff.1 hi
    have hsolid : TokenKind.layout.contains y.kind = false := by
      rw [List.mem_singleton.1 hkind]
      rfl
    obtain ⟨a, hrow⟩ := hs.exists_row_before hy hsolid
    have hgood := hclosed hr a i hrow hi
    obtain ⟨hzero, hsucc⟩ := hrow.previousOutside_of_eof hs hi
    cases a with
    | zero => simpa [hzero rfl] using hgood
    | succ a => simpa [hsucc a rfl] using hgood
  intro h
  cases h with
  | trailing hr hend hstart => exact htrimmed hr _ hend hstart
  | onlyBlank hr hi hend hnone =>
    have := (hgood hr hend).1 hnone
    omega
  | endFill hr hend hlast hlt hbad => exact hbad ((hgood hr hend).2 _ hlast)
  | endAppend hr hend hlast =>
    have hone := (hgood hr hend).2 _ hlast
    rw [lineBreaks_self] at hone
    cases hone
  | tabs hr hget hkind hindent => exact huntabbed hr hget hkind hindent

end Ruleset

namespace Passed

variable {rs : Ruleset} {s s' : TokenStream} {lineBreak : List Char} {b : EditBuffer}
  {ps : List Piece} {a c k m : Nat} {u v : List Char} {d : Char}

/-! ### Tabs in the indentation -/

section

variable (h : Passed rs s lineBreak b)
include h

/-- The value of a token of a row that is neither spaces nor the line break that the row becomes is
    what it was before. -/
theorem free_of_mem (hrow : s.Row a c) (hak : a ≤ k) (hkc : k < c) (hd : d ∈ b.values[k]?.getD [])
    (hspace : d ≠ ' ') (hbreak : ¬b.Shows s (.fill a c lineBreak) ∨ d = '\t') :
    b.IsFree k ∧ ∃ t, s.get? k = some t ∧ b.values[k]?.getD [] = t.value ∧
      t.kind ∈ TokenKind.layout := by
  have hlt := Nat.lt_trans hkc hrow.lt_size
  obtain ⟨t, ht⟩ := TokenStream.exists_get? hlt
  have hlayout := TokenStream.get?_of_kindIn ht (hrow.layout k hak hkc)
  by_cases hfree : b.IsFree k
  · exact ⟨hfree, t, ht, h.holds.value_of_get? hfree ht, hlayout⟩
  · exfalso
    rcases (h.rowEdit hrow hak hkc hfree).value hak hkc with ⟨w, hw⟩ | ⟨hw, hshows⟩
    · rw [hw] at hd
      exact hspace (List.eq_of_mem_replicate hd)
    · rcases hbreak with hbreak | rfl
      · exact hbreak hshows
      · rw [hw] at hd
        rcases Lexeme.mem_lineBreak h.isBreak hd with hd | hd <;> exact absurd hd (by decide)

theorem not_tab_of_rowText (hrow : s.Row a c) {width : Nat} (hhas : rs.Has (.indent width))
    (htext : b.rowText a c = u ++ '\t' :: v) (hindent : a = 0 ∨ hasBreak u = true) : False := by
  obtain ⟨k, w₁, w₂, hak, hkc, hvalue, rfl, -⟩ := EditBuffer.exists_of_rowText htext
  have htab : '\t' ∈ b.values[k]?.getD [] := by
    rw [hvalue]
    simp
  obtain ⟨hfree, t, ht, hsame, hlayout⟩ :=
    h.free_of_mem hrow hak hkc htab (by decide) (.inr rfl)
  rw [hsame] at htab hvalue
  obtain ⟨-, hkind, hrun⟩ :=
    (h.regular.genuine_of_get? ht).of_blank hlayout htab (.inr rfl)
  have hkeeps : ∀ {text : List Char}, ¬b.Shows s (.fill a c text) := fun hshows =>
    hshows.edited hak hkc hfree
  -- A line break before the tab is one of the old template.
  have hin : Layout.inIndentation s k = true := by
    rw [hrow.inIndentation_iff hak hkc]
    refine hindent.imp_right fun hbreak => ?_
    rw [hasBreak_append, Bool.or_eq_true] at hbreak
    rcases hbreak with hbreak | hbreak
    · obtain ⟨m, ham, hmk, hbreak⟩ := EditBuffer.exists_of_hasBreak_rowText hbreak
      obtain ⟨e, he, heq⟩ := hasBreak_iff.1 hbreak
      obtain ⟨-, t', ht', hsame', hlayout'⟩ := h.free_of_mem hrow ham (Nat.lt_trans hmk hkc) he
        (by rcases heq with rfl | rfl <;> decide) (.inl hkeeps)
      rw [hsame'] at hbreak
      exact ⟨m, ham, hmk, TokenStream.kindIn_iff.2
        ⟨t', ht', ((h.regular.genuine_of_get? ht').hasBreak_iff hlayout').1 hbreak⟩⟩
    · obtain ⟨e, he, heq⟩ := hasBreak_iff.1 hbreak
      have hmem : e ∈ t.value := by
        rw [hvalue]
        exact List.mem_append_left _ he
      exfalso
      rcases hrun e hmem with rfl | rfl <;> revert heq <;> decide
  obtain ⟨e, he, hedited⟩ :=
    h.tried (Ruleset.Realigns.tabs hhas ht (hkind rfl) hin).proposed
  obtain ⟨h₁, h₂, -⟩ := Change.of_mem_fill he (Nat.lt_succ_self _)
  obtain rfl : e.1 = k := by omega
  exact hedited hfree

/-- **After a pass there are no tabs in the indentation.** -/
theorem untabbed (hr : Renewal rs s lineBreak b ps s') (hs' : s'.Regular) : rs.Untabbed s' := by
  intro width k t hhas ht hkind hindent
  obtain ⟨a', c', u, v, hrow', htext, hbreak⟩ := hs'.exists_tab ht hkind hindent
  obtain ⟨a, c, hrow, ha, -, hnew⟩ := h.exists_newRow hr hs' hrow'
  rw [← ha] at hbreak
  rw [htext] at hnew
  cases hnew with
  | values _ hnew => exact h.not_tab_of_rowText hrow hhas hnew.symm hbreak
  | @opened w _ hnew =>
    have htab : '\t' ∈ List.replicate w ' ' := by
      rw [← hnew]
      simp
    exact absurd (List.eq_of_mem_replicate htab) (by decide)
  | ended _ _ hnew =>
    have htab : '\t' ∈ lineBreak := by
      rw [← hnew]
      simp
    rcases Lexeme.mem_lineBreak h.isBreak htab with hd | hd <;> exact absurd hd (by decide)

/-! ### Blanks at the end of a line -/

theorem trailing_of_edited (huntabbed : rs.Untabbed s) (hrow : s.Row a c) (hak : a ≤ k)
    (hkc : k < c) (hfree : b.IsFree k) (ham : a ≤ m) (hmc : m < c) (hedited : ¬b.IsFree m) :
    ∃ e, s.kindIn e Layout.lineEnds = true ∧ Layout.blanksStart s e ≤ m ∧ m < e ∧
      b.Shows s (.fill (Layout.blanksStart s e) e []) := by
  cases h.rowEdit hrow ham hmc hedited with
  | gap ha hn hw hbreak hbad hshows => exact absurd hfree (hshows.edited hak hkc)
  | trailing hr hend hec hstart hke hshows => exact ⟨_, hend, hstart, hke, hshows⟩
  | tabs hr ht hkind hindent => exact absurd hindent (huntabbed hr ht hkind)
  | ending heof htext hshows => exact absurd hfree (hshows.edited hak hkc)

theorem not_blank_of_free (hhas : rs.Has .trailingSpace) (huntabbed : rs.Untabbed s)
    (hrow : s.Row a c) (hak : a ≤ k) (hkc : k < c) (hfree : b.IsFree k)
    (hblank : s.kindIn k Layout.blanks = true) {l : Nat} (hkl : k < l) (hlc : l ≤ c)
    (hend : s.kindIn l Layout.lineEnds = true) (hbetween : ∀ m, k < m → m < l → ¬b.IsFree m) :
    False := by
  have hdisjoint : ∀ kind ∈ Layout.lineEnds, kind ∉ Layout.blanks := by decide
  have hsize : ∀ {e}, s.kindIn e Layout.lineEnds = true → e ≤ s.size :=
    fun he => Nat.le_of_lt (TokenStream.lt_of_kindIn he)
  have hnot : ∀ {e}, s.kindIn e Layout.lineEnds = true → ¬s.kindIn e Layout.blanks = true := by
    intro e he hin
    obtain ⟨t, ht, hkind⟩ := TokenStream.kindIn_iff.1 he
    exact hdisjoint _ hkind (TokenStream.get?_of_kindIn ht hin)
  -- All of it are blanks, so there is something to drop at the end of the line.
  have hblanks : ∀ m, k ≤ m → m < l → s.kindIn m Layout.blanks = true := by
    intro m hkm hml
    rcases Nat.eq_or_lt_of_le hkm with rfl | hkm
    · exact hblank
    · obtain ⟨e, he, hstart, hme, -⟩ := h.trailing_of_edited huntabbed hrow hak hkc hfree
        (by omega) (by omega) (hbetween m hkm hml)
      exact Layout.blanksStart_row (hsize he) m hstart hme
  have hstart : Layout.blanksStart s l ≤ k := by
    unfold Layout.blanksStart
    split
    · exact Nat.zero_le k
    · rename_i j hj
      obtain ⟨hjl, ⟨t, ht, hout⟩, -⟩ := (TokenStream.previousOutside_eq_some_iff (hsize hend)).1 hj
      apply Nat.succ_le_of_lt
      apply Nat.lt_of_not_le
      exact fun hkj => hout (TokenStream.get?_of_kindIn ht (hblanks j hkj hjl))
  have hrowl := Layout.blanksStart_row (hsize hend)
  obtain ⟨d, hd, hedited⟩ :=
    h.tried (Ruleset.Realigns.trailing hhas hend (Nat.lt_of_le_of_lt hstart hkl)).proposed
  obtain ⟨h₁, h₂, -⟩ := Change.of_mem_fill hd (Nat.lt_of_le_of_lt hstart hkl)
  have had := (hrow.within (by decide) hrowl hak hkc hstart hkl).1
  obtain ⟨e, he, hstart', hde, hshows⟩ :=
    h.trailing_of_edited huntabbed hrow hak hkc hfree (by omega) (by omega) hedited
  -- Both lines end at the same place.
  obtain rfl : e = l := by
    rcases Nat.lt_trichotomy e l with hlt | heq | hlt
    · exact absurd (hrowl e (by omega) hlt) (hnot he)
    · exact heq
    · exact absurd (Layout.blanksStart_row (hsize he) l (by omega) hlt) (hnot hend)
  exact hshows.edited hstart hkl hfree

theorem edited_of_rowText_nil (hrow : s.Row a c) (hak : a ≤ k) {l : Nat} (hlc : l ≤ c)
    (hnil : b.rowText k l = []) (hkm : k ≤ m) (hml : m < l) : ¬b.IsFree m := by
  intro hfree
  have hsize := hrow.lt_size
  obtain ⟨t, ht⟩ := TokenStream.exists_get? (show m < s.size by omega)
  have hvalue := EditBuffer.rowText_eq_nil_iff.1 hnil m hkm hml
  rw [h.holds.value_of_get? hfree ht] at hvalue
  exact h.regular.value_ne_nil ht (List.Subset.refl _) (hrow.layout m (by omega) (by omega)) hvalue

theorem not_trailing_of_edited (hrow : s.Row a c) (huntabbed : rs.Untabbed s)
    (htext : b.rowText a c = u ++ d :: v) (hd : d = ' ' ∨ d = '\t')
    (hv : v = [] ∧ s.kindIn c [.eof] = true ∨ ∃ e v', v = e :: v' ∧ (e = '\n' ∨ e = '\r'))
    (hak : a ≤ k) (hkc : k < c) (hmem : d ∈ b.values[k]?.getD []) (hedited : ¬b.IsFree k) :
    False := by
  cases h.rowEdit hrow hak hkc hedited with
  | @gap i w x y ha hn hw hbreak hbad hshows =>
    rw [hshows.rowText (by omega)] at htext
    rcases hv with ⟨-, heof⟩ | ⟨e, v', rfl, he⟩
    · have hy := List.mem_singleton.1 (TokenStream.get?_of_kindIn hn.right heof)
      rw [Ruleset.wants_of_eof h.regular hn hy] at hw
      cases hw
    · have hspace : e ∈ List.replicate w ' ' := by
        rw [htext]
        simp
      rw [List.eq_of_mem_replicate hspace] at he
      exact absurd he (by decide)
  | trailing hr hend hec hstart hke hshows =>
    rw [hshows.value hstart hke, ite_self] at hmem
    cases hmem
  | tabs hr ht hkind hindent => exact huntabbed hr ht hkind hindent
  | ending heof htext' hshows =>
    rw [hshows.rowText (by omega), htext'] at htext
    have hmem' : d ∈ if a = 0 then [] else lineBreak := by
      rw [htext]
      simp
    split at hmem'
    · cases hmem'
    · rcases Lexeme.mem_lineBreak h.isBreak hmem' with rfl | rfl <;> exact absurd hd (by decide)

theorem not_trailing_of_free (hrow : s.Row a c) (hhas : rs.Has .trailingSpace)
    (huntabbed : rs.Untabbed s)
    (hv : v = [] ∧ s.kindIn c [.eof] = true ∨ ∃ e v', v = e :: v' ∧ (e = '\n' ∨ e = '\r'))
    (hak : a ≤ k) (hkc : k < c) (hfree : b.IsFree k) (hblank : s.kindIn k Layout.blanks = true)
    (hrest : v = b.rowText (k + 1) c) : False := by
  have hak' : a ≤ k + 1 := Nat.le_succ_of_le hak
  rcases hv with ⟨hv, heof⟩ | ⟨e, v', hv, he⟩
  · refine h.not_blank_of_free hhas huntabbed hrow hak hkc hfree hblank hkc (Nat.le_refl c) ?_
      fun m => h.edited_of_rowText_nil hrow hak' (Nat.le_refl c) (hrest.symm.trans hv)
    obtain ⟨y, hy, hkind⟩ := TokenStream.kindIn_iff.1 heof
    exact TokenStream.kindIn_iff.2 ⟨y, hy, by rw [List.mem_singleton.1 hkind]; decide⟩
  · -- The line ends at the token of the line break.
    obtain ⟨l, w, w', hkl, hlc, hvalue, hnil, -⟩ :=
      EditBuffer.exists_of_rowText (u := []) (hrest.symm.trans hv)
    have hmem : e ∈ b.values[l]?.getD [] := by
      rw [hvalue]
      simp
    obtain ⟨-, t, ht, hsame, hlayout⟩ := h.free_of_mem hrow (by omega) hlc hmem
      (by rcases he with rfl | rfl <;> decide) (.inl fun hshows => hshows.edited hak hkc hfree)
    rw [hsame] at hmem
    have hbreaks : t.kind ∈ TokenKind.breaks :=
      ((h.regular.genuine_of_get? ht).hasBreak_iff hlayout).1 (hasBreak_iff.2 ⟨e, hmem, he⟩)
    have hends : TokenKind.breaks ⊆ Layout.lineEnds := by decide
    have hempty : b.rowText (k + 1) l = [] := (List.append_eq_nil_iff.1 hnil.symm).1
    exact h.not_blank_of_free hhas huntabbed hrow hak hkc hfree hblank hkl (Nat.le_of_lt hlc)
      (TokenStream.kindIn_iff.2 ⟨t, ht, hends hbreaks⟩)
      fun m => h.edited_of_rowText_nil hrow hak' (Nat.le_of_lt hlc) hempty

theorem not_trailing_of_rowText (hrow : s.Row a c) (hhas : rs.Has .trailingSpace)
    (huntabbed : rs.Untabbed s) (htext : b.rowText a c = u ++ d :: v) (hd : d = ' ' ∨ d = '\t')
    (hv : v = [] ∧ s.kindIn c [.eof] = true ∨ ∃ e v', v = e :: v' ∧ (e = '\n' ∨ e = '\r')) :
    False := by
  obtain ⟨k, w₁, w₂, hak, hkc, hvalue, -, hrest⟩ := EditBuffer.exists_of_rowText htext
  have hmem : d ∈ b.values[k]?.getD [] := by
    rw [hvalue]
    simp
  by_cases hfree : b.IsFree k
  · obtain ⟨t, ht⟩ := TokenStream.exists_get? (Nat.lt_trans hkc hrow.lt_size)
    have hlayout := TokenStream.get?_of_kindIn ht (hrow.layout k hak hkc)
    rw [h.holds.value_of_get? hfree ht] at hvalue hmem
    obtain ⟨hkind, -, hrun⟩ := (h.regular.genuine_of_get? ht).of_blank hlayout hmem hd
    -- Behind the blank the value ends.
    have hw₂ : w₂ = [] := by
      cases w₂ with
      | nil => rfl
      | cons f w =>
        have hf : f = ' ' ∨ f = '\t' := hrun f (by
          change f ∈ t.value
          rw [hvalue]
          simp)
        rcases hv with ⟨hv, -⟩ | ⟨e, v', hv, he⟩
        · rw [hv] at hrest
          cases hrest
        · rw [hv] at hrest
          obtain ⟨rfl, -⟩ := List.cons.inj hrest
          rcases he with rfl | rfl <;> exact absurd hf (by decide)
    rw [hw₂, List.nil_append] at hrest
    exact h.not_trailing_of_free hrow hhas huntabbed hv hak hkc hfree
      (TokenStream.kindIn_iff.2 ⟨t, ht, hkind⟩) hrest
  · exact h.not_trailing_of_edited hrow huntabbed htext hd hv hak hkc hmem hfree

/-- **A pass leaves no blanks at the end of a line**, if there are no tabs in the indentation. -/
theorem trimmed (hr : Renewal rs s lineBreak b ps s') (hs' : s'.Regular)
    (huntabbed : rs.Untabbed s) : rs.Trimmed s' := by
  intro hhas e hend hstart
  obtain ⟨a', c', u, d, v, hrow', htext, hd, hv⟩ := hs'.exists_trailing hend hstart
  obtain ⟨a, c, hrow, -, heof, hnew⟩ := h.exists_newRow hr hs' hrow'
  rw [← heof] at hv
  rw [htext] at hnew
  cases hnew with
  | values _ hnew => exact h.not_trailing_of_rowText hrow hhas huntabbed hnew.symm hd hv
  | @opened w _ hnew hinner =>
    rcases hv with ⟨-, heof⟩ | ⟨f, v', rfl, hf⟩
    · rw [(hinner heof).1] at hnew
      exact absurd hnew (by simp)
    · have hspace : f ∈ List.replicate w ' ' := by
        rw [← hnew]
        simp
      rw [List.eq_of_mem_replicate hspace] at hf
      exact absurd hf (by decide)
  | ended _ _ hnew =>
    have hmem : d ∈ lineBreak := by
      rw [← hnew]
      simp
    rcases Lexeme.mem_lineBreak h.isBreak hmem with rfl | rfl <;> exact absurd hd (by decide)

end

end Passed

/-! ### The end of the file -/

theorem countP_lineBreak {ts : List Token} {v rest : List Char}
    (hts : ∀ t ∈ ts, t.kind ∈ Layout.blankLines ∧ t.lexeme.Genuine ∧ t.value ≠ [])
    (hunsplit : Unsplit (ts.map Token.lexeme) rest) (hv : v ∈ [['\n'], ['\r'], ['\r', '\n']])
    (htext : spell (ts.map Token.lexeme) = v) : ts.countP (·.kind == .lineBreak) = 1 := by
  have hlayout : Layout.blankLines ⊆ TokenKind.layout := by decide
  have hbreaks : ∀ v ∈ [['\n'], ['\r'], ['\r', '\n']], v ≠ [] ∧ v.length ≤ 2 ∧
      (v.length = 2 → v = ['\r', '\n']) ∧ hasBreak v = true := by decide
  obtain ⟨hne, hle, htwo, hbreak⟩ := hbreaks v hv
  match ts with
  | [] => exact absurd htext.symm hne
  | [t] =>
    obtain ⟨hkind, hgenuine, -⟩ := hts t List.mem_cons_self
    have hvalue : t.value = v := by simpa [spell, Token.lexeme] using htext
    rw [← hvalue] at hbreak
    have hbreaks := (hgenuine.hasBreak_iff (hlayout hkind)).1 hbreak
    have hline : ∀ kind ∈ TokenKind.breaks, kind ∈ Layout.blankLines → kind = .lineBreak := by decide
    have heq : t.kind = .lineBreak := hline _ hbreaks hkind
    simp [heq]
  | t :: u :: ts =>
    exfalso
    obtain ⟨-, -, ht⟩ := hts t List.mem_cons_self
    obtain ⟨-, -, hu⟩ := hts u (List.mem_cons_of_mem t List.mem_cons_self)
    obtain ⟨c, tv, htv⟩ := List.exists_cons_of_ne_nil ht
    obtain ⟨d, uv, huv⟩ := List.exists_cons_of_ne_nil hu
    rw [List.map_cons, List.map_cons, spell_cons, spell_cons, Token.lexeme, Token.lexeme, htv,
      huv] at htext
    have hlength := congrArg List.length htext
    simp only [List.length_append, List.length_cons] at hlength
    rw [htwo (by omega)] at htext
    obtain rfl : tv = [] := List.eq_nil_of_length_eq_zero (by omega)
    simp only [List.cons_append, List.nil_append, List.cons.injEq] at htext
    obtain ⟨rfl, rfl, -⟩ := htext
    refine hunsplit.1 ?_ ?_
    · simp [Token.lexeme, htv]
    · simp [Token.lexeme, huv]

theorem TokenStream.Regular.lineBreaks_eq_one {s : TokenStream} {a c : Nat} (hs : s.Regular)
    (hrow : s.Row a c) (heof : s.kindIn c [.eof] = true)
    (htext : s.layoutText a c ∈ [['\n'], ['\r'], ['\r', '\n']]) : Layout.lineBreaks s a c = 1 := by
  have hextract : (s.tokens.extract a c).toList = (s.tokens.toList.take c).drop a := by
    rw [Array.toList_extract, List.extract_eq_take_drop, List.drop_take]
  have hlexemes : (s.lexemes.take c).drop a = ((s.tokens.toList.take c).drop a).map Token.lexeme := by
    rw [List.map_drop, List.map_take]
    rfl
  rw [layoutText, hlexemes] at htext
  rw [Layout.lineBreaks, hextract]
  have hunsplit : Unsplit (((s.tokens.toList.take c).drop a).map Token.lexeme)
      (spell (s.lexemes.drop c)) := by
    have htake : s.lexemes.take a ++ (s.lexemes.take c).drop a = s.lexemes.take c := by
      have h := List.take_append_drop a (s.lexemes.take c)
      rwa [List.take_take, Nat.min_eq_left hrow.le] at h
    have hunsplit := hs.unsplit
    rw [← List.take_append_drop c s.lexemes, ← htake, List.append_assoc, unsplit_append,
      unsplit_append, List.append_nil, List.append_nil, hlexemes] at hunsplit
    exact hunsplit.2.1
  refine countP_lineBreak (fun t ht => ?_) hunsplit htext rfl
  obtain ⟨k, hk⟩ := List.getElem?_of_mem ht
  rw [List.getElem?_drop] at hk
  have hlt : a + k < c := by
    have hlt := (List.getElem?_eq_some_iff.1 hk).1
    rw [List.length_take] at hlt
    omega
  rw [List.getElem?_take_of_lt hlt, Array.getElem?_toList] at hk
  have hblank := hrow.blankLines_of_eof hs heof (a + k) (by omega) hlt
  exact ⟨get?_of_kindIn hk hblank, hs.genuine_of_get? hk, hs.value_ne_nil hk (by decide) hblank⟩

namespace Passed

variable {rs : Ruleset} {s s' : TokenStream} {lineBreak : List Char} {b : EditBuffer}
  {ps : List Piece} {a c k : Nat}

theorem rowText_of_edited (h : Passed rs s lineBreak b) (huntabbed : rs.Untabbed s)
    (htrimmed : rs.Trimmed s) (hrow : s.Row a c) (heof : s.kindIn c [.eof] = true) (hak : a ≤ k)
    (hkc : k < c) (hedited : ¬b.IsFree k) : b.rowText a c = if a = 0 then [] else lineBreak := by
  cases h.rowEdit hrow hak hkc hedited with
  | gap ha hn hw =>
    have hy := List.mem_singleton.1 (TokenStream.get?_of_kindIn hn.right heof)
    rw [Ruleset.wants_of_eof h.regular hn hy] at hw
    cases hw
  | trailing hr hend hec hstart hke => exact absurd (Nat.lt_of_le_of_lt hstart hke) (htrimmed hr _ hend)
  | tabs hr ht hkind hindent => exact absurd hindent (huntabbed hr ht hkind)
  | ending _ htext hshows =>
    rw [← htext]
    exact hshows.rowText (by omega)

theorem newRow_of_not_closed (h : Passed rs s lineBreak b) (huntabbed : rs.Untabbed s)
    (htrimmed : rs.Trimmed s) (haligned : ∀ ch, ¬rs.Respaces s ch) (hhas : rs.Has .blankEof)
    (hrow : s.Row a c) (heof : s.kindIn c [.eof] = true)
    (hbad : ¬if a = 0 then c = 0 else Layout.lineBreaks s a c = 1) {g : List Char}
    (hnew : NewRow rs s lineBreak b a c g) : g = if a = 0 then [] else lineBreak := by
  obtain ⟨hnone, hsome⟩ := hrow.previousOutside_of_eof h.regular heof
  cases hnew with
  | values hlt hnew =>
    -- The change of the end of the file was tried, and nothing else is in its way.
    obtain ⟨start, text, hch, hstart⟩ :
        ∃ start text, rs.Realigns s lineBreak (.fill start c text) ∧ start = a := by
      cases a with
      | zero => exact ⟨0, [], .onlyBlank hhas hlt heof (hnone rfl), rfl⟩
      | succ i =>
        rw [if_neg (Nat.succ_ne_zero i)] at hbad
        exact ⟨i + 1, lineBreak, .endFill hhas heof (hsome i rfl) hlt hbad, rfl⟩
    subst hstart
    obtain ⟨e, he, hedited⟩ := h.tried hch.proposed
    obtain ⟨h₁, h₂, -⟩ := Change.of_mem_fill he hlt
    rw [hnew]
    exact h.rowText_of_edited huntabbed htrimmed hrow heof h₁ h₂ hedited
  | opened heq hnew hend =>
    subst heq
    obtain ⟨hwidth, hleft⟩ := hend heof
    cases a with
    | zero => exact absurd rfl hbad
    | succ i =>
      have hch : rs.Realigns s lineBreak (.append i lineBreak) := .endAppend hhas heof (hsome i rfl)
      obtain ⟨e, he, hedited⟩ := h.tried hch.proposed
      rw [List.mem_singleton.1 he] at hedited
      obtain ⟨text, hprepend⟩ := hleft i rfl hedited
      rcases (Ruleset.proposed_iff h.regular).1 hprepend with hprepend | hprepend
      · exact absurd hprepend (haligned _)
      · cases hprepend
  | ended heq _ hnew =>
    subst heq
    cases a with
    | zero => exact absurd rfl hbad
    | succ i => rw [hnew, if_neg (Nat.succ_ne_zero i)]

/-- **A pass makes the end of the file right**, if nothing else is left to be done. -/
theorem closed (h : Passed rs s lineBreak b) (hr : Renewal rs s lineBreak b ps s')
    (hs' : s'.Regular) (huntabbed : rs.Untabbed s) (htrimmed : rs.Trimmed s)
    (haligned : ∀ ch, ¬rs.Respaces s ch) (hopen : ¬rs.Closed s) : rs.Closed s' := by
  intro hhas a' c' hrow' heof'
  obtain ⟨a, c, hrow, ha, heof, hnew⟩ := h.exists_newRow hr hs' hrow'
  have heof := heof.2 heof'
  have hbad : ¬if a = 0 then c = 0 else Layout.lineBreaks s a c = 1 := by
    intro hgood
    refine hopen fun _ a₁ c₁ hrow₁ heof₁ => ?_
    obtain rfl : c = c₁ := by
      have h₁ := (h.regular.ended c).1 heof
      have h₂ := (h.regular.ended c₁).1 heof₁
      omega
    obtain rfl := hrow.left_unique hrow₁
    exact hgood
  have htext := h.newRow_of_not_closed huntabbed htrimmed haligned hhas hrow heof hbad hnew
  by_cases ha' : a' = 0
  · rw [if_pos (ha.2 ha')] at htext
    rw [if_pos ha']
    subst ha'
    apply Classical.byContradiction
    intro hne
    -- The first token would be layout with a value.
    have hlt : 0 < c' := Nat.pos_of_ne_zero hne
    have hlayout := hrow'.layout 0 (Nat.le_refl 0) hlt
    obtain ⟨t, ht, -⟩ := TokenStream.kindIn_iff.1 hlayout
    rw [TokenStream.layoutText_split ht (Nat.le_refl 0) hlt] at htext
    exact hs'.value_ne_nil ht (List.Subset.refl _) hlayout
      (List.append_eq_nil_iff.1 (List.append_eq_nil_iff.1 htext).1).2
  · rw [if_neg (mt ha.1 ha')] at htext
    rw [if_neg ha']
    refine hs'.lineBreaks_eq_one hrow' heof' ?_
    rw [htext]
    exact h.isBreak

end Passed

end TwigStyle
