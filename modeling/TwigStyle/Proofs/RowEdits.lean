import TwigStyle.Proofs.Renewal

/-!
# What a pass edits in a row of layout

A maximal row of layout stands between two tokens or at the start of the file.  All that can happen to
one of its tokens is said by `RowEdit`: the whole row gets a width that is wanted, the blanks at the end
of a line are dropped, tabs in the indentation become spaces, or the row ends the file and becomes a line
break, or nothing.
-/

namespace TwigStyle

/-! ### Rows -/

theorem TokenKind.breaks_of_layout : ∀ kind ∈ TokenKind.layout, kind ∉ Layout.blanks →
    kind ∈ TokenKind.breaks := by
  decide

namespace TokenStream

variable {s : TokenStream} {a c i k : Nat} {x y : Token} {kinds : List TokenKind}

/-- The tokens from `a` up to, not including, `c` are all the layout between two other tokens, or before
    the first one. -/
structure Row (s : TokenStream) (a c : Nat) : Prop where
  le : a ≤ c
  layout : ∀ k, a ≤ k → k < c → s.kindIn k TokenKind.layout = true
  right : ∃ y, s.get? c = some y ∧ Lexeme.isLayout y.lexeme = false
  left : ∀ k, k + 1 = a → ∃ x, s.get? k = some x ∧ Lexeme.isLayout x.lexeme = false

theorem Neighbours.toRow (h : s.Neighbours i c x y) : s.Row (i + 1) c := by
  refine ⟨h.lt, h.between, ⟨y, h.right, h.solidRight⟩, ?_⟩
  intro k hk
  obtain rfl : k = i := Nat.succ.inj hk
  exact ⟨x, h.left, h.solidLeft⟩

theorem Row.toNeighbours (h : s.Row (i + 1) c) : ∃ x y, s.Neighbours i c x y := by
  obtain ⟨x, hx, hsolid⟩ := h.left i rfl
  obtain ⟨y, hy, hsolid'⟩ := h.right
  exact ⟨x, y, h.le, hx, hy, hsolid, hsolid', h.layout⟩

theorem Row.lt_size (h : s.Row a c) : c < s.size := by
  obtain ⟨y, hy, -⟩ := h.right
  exact get?_lt hy

theorem Row.within (h : s.Row a c) (hkinds : kinds ⊆ TokenKind.layout) {start stop : Nat}
    (hrow : ∀ l, start ≤ l → l < stop → s.kindIn l kinds = true) (hak : a ≤ k) (hkc : k < c)
    (hstart : start ≤ k) (hstop : k < stop) : a ≤ start ∧ stop ≤ c := by
  constructor
  · apply Nat.le_of_not_lt
    intro hlt
    obtain ⟨x, hx, hsolid⟩ := h.left (a - 1) (by omega)
    exact not_kindIn_layout hx hsolid hkinds (hrow _ (by omega) (by omega))
  · apply Nat.le_of_not_lt
    intro hlt
    obtain ⟨y, hy, hsolid⟩ := h.right
    exact not_kindIn_layout hy hsolid hkinds (hrow _ (by omega) hlt)

theorem Row.eq_of_meet {a' c' : Nat} (h : s.Row a c) (h' : s.Row a' c') (hak : a ≤ k) (hkc : k < c)
    (hak' : a' ≤ k) (hkc' : k < c') : a = a' ∧ c = c' := by
  have h₁ := h.within (List.Subset.refl _) h'.layout hak hkc hak' hkc'
  have h₂ := h'.within (List.Subset.refl _) h.layout hak' hkc' hak hkc
  omega

theorem Regular.exists_row (hs : s.Regular) (hk : s.kindIn k TokenKind.layout = true) :
    ∃ a c, s.Row a c ∧ a ≤ k ∧ k < c := by
  -- The end of the file is no layout.
  have hnext : ∀ n k, s.size = k + n → 0 < n → ∃ c y, k ≤ c ∧ s.get? c = some y ∧
      Lexeme.isLayout y.lexeme = false ∧
        ∀ m, k ≤ m → m < c → s.kindIn m TokenKind.layout = true := by
    intro n
    induction n with
    | zero => exact fun _ _ h => absurd h (Nat.lt_irrefl _)
    | succ n ih =>
      intro k hsize _
      obtain ⟨t, ht⟩ := exists_get? (s := s) (i := k) (by omega)
      cases hl : Lexeme.isLayout t.lexeme with
      | false => exact ⟨k, t, Nat.le_refl k, ht, hl, fun m _ _ => by omega⟩
      | true =>
        have hlayout : t.kind ∈ TokenKind.layout := List.contains_iff_mem.1 hl
        have hn : 0 < n := by
          apply Nat.pos_of_ne_zero
          rintro rfl
          have heof := get?_of_kindIn ht ((hs.ended k).2 hsize.symm)
          rw [List.mem_singleton.1 heof] at hlayout
          exact absurd hlayout (by decide)
        obtain ⟨c, y, hkc, hy, hsolid, hrow⟩ := ih (k + 1) (by omega) hn
        refine ⟨c, y, by omega, hy, hsolid, fun m hkm hmc => ?_⟩
        rcases Nat.eq_or_lt_of_le hkm with rfl | hkm
        · exact kindIn_iff.2 ⟨t, ht, hlayout⟩
        · exact hrow m hkm hmc
  have hlt := lt_of_kindIn hk
  obtain ⟨c, y, hkc, hy, hsolid, hright⟩ := hnext (s.size - k) k (by omega) (by omega)
  have hne : k ≠ c := by
    rintro rfl
    exact not_kindIn_layout hy hsolid (List.Subset.refl _) hk
  cases hprevious : s.previousOutside TokenKind.layout k with
  | none =>
    have hleft := previousOutside_eq_none (Nat.le_of_lt hlt) hprevious
    refine ⟨0, c, ⟨Nat.zero_le c, fun m _ hmc => ?_, ⟨y, hy, hsolid⟩, nofun⟩, Nat.zero_le k,
      by omega⟩
    rcases Nat.lt_or_ge m k with hmk | hkm
    · exact hleft m hmk
    · exact hright m hkm hmc
  | some j =>
    obtain ⟨hjk, ⟨x, hx, hout⟩, hleft⟩ :=
      (previousOutside_eq_some_iff (Nat.le_of_lt hlt)).1 hprevious
    refine ⟨j + 1, c, ⟨by omega, fun m hjm hmc => ?_, ⟨y, hy, hsolid⟩, ?_⟩, hjk, by omega⟩
    · rcases Nat.lt_or_ge m k with hmk | hkm
      · exact hleft m hjm hmk
      · exact hright m hkm hmc
    · intro m hm
      obtain rfl : m = j := Nat.succ.inj hm
      refine ⟨x, hx, Bool.eq_false_iff.2 fun hl => hout ?_⟩
      exact List.contains_iff_mem.1 hl

/-- Layout at the end of the file is made of blank lines: it is not in a comment. -/
theorem Row.blankLines_of_eof (h : s.Row a c) (hs : s.Regular) (heof : s.kindIn c [.eof] = true) :
    ∀ k, a ≤ k → k < c → s.kindIn k Layout.blankLines = true := by
  have hopen : ∀ kind ∈ TokenKind.layout, kind ∉ Layout.blankLines →
      kind ∈ TokenKind.commentOpen := by decide
  have hnext : ∀ kind ∈ TokenKind.commentNext, kind ∉ Layout.blankLines ∧ kind ≠ .eof := by decide
  obtain ⟨y, hy, hkind⟩ := kindIn_iff.1 heof
  -- From the last token of the row to the first one.
  have hdown : ∀ n k, c = k + n → 0 < n → a ≤ k → s.kindIn k Layout.blankLines = true := by
    intro n
    induction n with
    | zero => exact fun _ _ h => absurd h (Nat.lt_irrefl _)
    | succ n ih =>
      intro k hc _ hak
      have hlayout := h.layout k hak (by omega)
      obtain ⟨t, ht, hlayout⟩ := kindIn_iff.1 hlayout
      apply Classical.byContradiction
      intro hother
      have hout : t.kind ∉ Layout.blankLines := fun hin => hother (kindIn_iff.2 ⟨t, ht, hin⟩)
      cases n with
      | zero =>
        subst hc
        have := (hs.comment ht hy).1 (hopen _ hlayout hout)
        exact (hnext _ this).2 (List.mem_singleton.1 hkind)
      | succ n =>
        obtain ⟨u, hu, hin⟩ := kindIn_iff.1 (ih (k + 1) (by omega) (by omega) (by omega))
        exact (hnext _ ((hs.comment ht hu).1 (hopen _ hlayout hout))).1 hin
  exact fun k hak hkc => hdown (c - k) k (by omega) (by omega) hak

theorem Row.previousOutside_of_eof (h : s.Row a c) (hs : s.Regular)
    (heof : s.kindIn c [.eof] = true) :
    (a = 0 → s.previousOutside Layout.blankLines c = none) ∧
      ∀ i, a = i + 1 → s.previousOutside Layout.blankLines c = some i := by
  have hlt := Nat.le_of_lt h.lt_size
  have hblank := h.blankLines_of_eof hs heof
  constructor
  · rintro rfl
    cases hprevious : s.previousOutside Layout.blankLines c with
    | none => rfl
    | some j =>
      obtain ⟨hjc, ⟨t, ht, hout⟩, -⟩ := (previousOutside_eq_some_iff hlt).1 hprevious
      exact absurd (get?_of_kindIn ht (hblank j (Nat.zero_le j) hjc)) hout
  · rintro i rfl
    obtain ⟨x, hx, hsolid⟩ := h.left i rfl
    have hblankLines : Layout.blankLines ⊆ TokenKind.layout := by decide
    exact (previousOutside_eq_some_iff hlt).2
      ⟨h.le, ⟨x, hx, fun hin => Token.kind_of_solid hsolid (hblankLines hin)⟩, hblank⟩

theorem Row.inIndentation_iff (h : s.Row a c) (hak : a ≤ k) (hkc : k < c) :
    Layout.inIndentation s k = true ↔
      a = 0 ∨ ∃ m, a ≤ m ∧ m < k ∧ s.kindIn m TokenKind.breaks = true := by
  have hblanks : Layout.blanks ⊆ TokenKind.layout := by decide
  have hbreaks : TokenKind.breaks ⊆ TokenKind.layout := by decide
  have hdisjoint : ∀ kind ∈ TokenKind.breaks, kind ∉ Layout.blanks := by decide
  have hk : k ≤ s.size := Nat.le_of_lt (Nat.lt_trans hkc h.lt_size)
  unfold Layout.inIndentation
  cases hprevious : s.previousOutside Layout.blanks k with
  | none =>
    have hrow := previousOutside_eq_none hk hprevious
    refine ⟨fun _ => .inl ?_, fun _ => rfl⟩
    apply Classical.byContradiction
    intro hne
    obtain ⟨x, hx, hsolid⟩ := h.left (a - 1) (by omega)
    exact not_kindIn_layout hx hsolid hblanks (hrow _ (by omega))
  | some m =>
    obtain ⟨hmk, ⟨t, ht, hout⟩, hrow⟩ := (previousOutside_eq_some_iff hk).1 hprevious
    have hbreak : a ≤ m → s.kindIn m TokenKind.breaks = true := fun ham =>
      kindIn_iff.2 ⟨t, ht,
        TokenKind.breaks_of_layout _ (get?_of_kindIn ht (h.layout m ham (by omega))) hout⟩
    constructor
    · intro hm
      refine (Nat.eq_zero_or_pos a).imp_right fun hpos => ⟨m, ?_, hmk, hm⟩
      apply Nat.le_of_not_lt
      intro hma
      obtain ⟨x, hx, hsolid⟩ := h.left (a - 1) (by omega)
      rcases Nat.eq_or_lt_of_le (Nat.le_sub_one_of_lt hma) with rfl | hlt
      · exact not_kindIn_layout hx hsolid hbreaks hm
      · exact not_kindIn_layout hx hsolid hblanks (hrow _ hlt (by omega))
    · rintro (rfl | ⟨l, hal, hlk, hl⟩)
      · exact hbreak (Nat.zero_le m)
      · refine hbreak (Nat.le_trans hal (Nat.le_of_not_lt fun hml => ?_))
        obtain ⟨u, hu, hkind⟩ := kindIn_iff.1 hl
        exact hdisjoint _ hkind (get?_of_kindIn hu (hrow l hml hlk))

/-! ### The text of a row -/

/-- The text of the tokens from `a` up to, not including, `c`. -/
def layoutText (s : TokenStream) (a c : Nat) : List Char := spell ((s.lexemes.take c).drop a)

theorem layoutText_split {t : Token} (ht : s.get? k = some t) (hak : a ≤ k) (hkc : k < c) :
    s.layoutText a c = s.layoutText a k ++ t.value ++ s.layoutText (k + 1) c := by
  have hat := TokenStream.lexeme_of_get? ht
  obtain ⟨hlt, hat⟩ := List.getElem?_eq_some_iff.1 hat
  have hlength : k < (s.lexemes.take c).length := by rw [List.length_take]; omega
  have hdrop : (s.lexemes.take c).drop k = t.lexeme :: (s.lexemes.take c).drop (k + 1) := by
    rw [List.drop_eq_getElem_cons hlength, List.getElem_take, hat]
  have hparts : (s.lexemes.take c).drop a =
      (s.lexemes.take k).drop a ++ t.lexeme :: (s.lexemes.take c).drop (k + 1) := by
    rw [← hdrop]
    obtain ⟨d, rfl⟩ : ∃ d, k = a + d := ⟨k - a, by omega⟩
    have htake : (s.lexemes.take (a + d)).drop a = ((s.lexemes.take c).drop a).take d := by
      rw [List.drop_take, List.drop_take, List.take_take, Nat.add_sub_cancel_left,
        Nat.min_eq_left (by omega)]
    rw [htake, ← List.drop_drop, List.take_append_drop]
  rw [layoutText, hparts, spell_append, spell_cons, List.append_assoc]
  rfl

end TokenStream

theorem TokenStream.Regular.hasBreak_layoutText {s : TokenStream} {a c k : Nat} (hs : s.Regular)
    (hak : a ≤ k) (hkc : k < c) (hkind : s.kindIn k TokenKind.breaks = true) :
    hasBreak (s.layoutText a c) = true := by
  obtain ⟨t, ht, hbreaks⟩ := kindIn_iff.1 hkind
  have hlayout : TokenKind.breaks ⊆ TokenKind.layout := by decide
  have hvalue : hasBreak t.value = true :=
    ((hs.genuine_of_get? ht).hasBreak_iff (hlayout hbreaks)).2 hbreaks
  rw [layoutText_split ht hak hkc, hasBreak_append, hasBreak_append, hvalue]
  simp

/-! ### What happens to a token of a row -/

/-- What happens to the token at `k` of a row of layout. -/
inductive RowEdit (rs : Ruleset) (s : TokenStream) (lineBreak : List Char) (b : EditBuffer)
    (a c k : Nat) : Prop
  /-- The row gets a width that is wanted. -/
  | gap {i w : Nat} {x y : Token} (ha : a = i + 1) (hn : s.Neighbours i c x y)
      (hw : w ∈ rs.wants s i c) (hbreak : hasBreak (s.gapText i c) = false)
      (hbad : s.gapText i c ≠ List.replicate w ' ')
      (hshows : b.Shows s (.fill a c (List.replicate w ' ')))
  /-- The blanks at the end of a line are dropped. -/
  | trailing {e : Nat} (hr : rs.Has .trailingSpace) (hend : s.kindIn e Layout.lineEnds = true)
      (hec : e ≤ c) (hstart : Layout.blanksStart s e ≤ k) (hke : k < e)
      (hshows : b.Shows s (.fill (Layout.blanksStart s e) e []))
  /-- Tabs in the indentation become spaces. -/
  | tabs {width : Nat} {t : Token} (hr : rs.Has (.indent width)) (ht : s.get? k = some t)
      (hkind : t.kind = .tabs ∨ t.kind = .commentTabs) (hindent : Layout.inIndentation s k = true)
      (hshows : b.Shows s (.fill k (k + 1) (List.replicate (width * t.value.length) ' ')))
  /-- The row is made the end of the file. -/
  | ending {text : List Char} (heof : s.kindIn c [.eof] = true)
      (htext : text = if a = 0 then [] else lineBreak) (hshows : b.Shows s (.fill a c text))

namespace Passed

variable {rs : Ruleset} {s : TokenStream} {lineBreak : List Char} {b : EditBuffer} {a c k : Nat}

theorem rowEdit (h : Passed rs s lineBreak b) (hrow : s.Row a c) (hak : a ≤ k) (hkc : k < c)
    (hedited : ¬b.IsFree k) : RowEdit rs s lineBreak b a c k := by
  have hs := h.regular
  have hsize := hrow.lt_size
  have hsolid : ∀ {t : Token}, s.get? k = some t → ¬Lexeme.isLayout t.lexeme = false :=
    fun ht hsolid => TokenStream.not_kindIn_layout ht hsolid (List.Subset.refl _)
      (hrow.layout k hak hkc)
  -- The end of the file is not in the row.
  have hend : ∀ {m}, s.kindIn m [.eof] = true → m ≤ c → m = c := by
    intro m hm hmc
    have := (hs.ended m).1 hm
    omega
  obtain ⟨ch, hch, hshows, hmem⟩ := h.made k (by omega) hedited
  obtain ⟨e, he, rfl⟩ := List.mem_map.1 hmem
  have hch' := hch
  rcases (Ruleset.proposed_iff hs).1 hch with hch | hch
  · cases hch with
    | fill hn hlt hw hbreak hbad =>
      obtain ⟨h₁, h₂, -⟩ := Change.of_mem_fill he hlt
      obtain ⟨rfl, rfl⟩ := hrow.eq_of_meet hn.toRow hak hkc h₁ h₂
      exact .gap rfl hn hw hbreak hbad hshows
    | append hn =>
      rw [List.mem_singleton.1 he] at hsolid
      exact absurd hn.solidLeft (hsolid hn.left)
    | prepend hn =>
      rw [List.mem_singleton.1 he] at hsolid
      exact absurd hn.solidRight (hsolid hn.right)
  · cases hch with
    | trailing hr hlineEnd hstart =>
      have hm := Nat.le_of_lt (TokenStream.lt_of_kindIn hlineEnd)
      obtain ⟨h₁, h₂, -⟩ := Change.of_mem_fill he hstart
      exact .trailing hr hlineEnd
        (hrow.within (by decide) (Layout.blanksStart_row hm) hak hkc h₁ h₂).2 h₁ h₂ hshows
    | onlyBlank hr hm heof hnone =>
      obtain ⟨h₁, h₂, -⟩ := Change.of_mem_fill he hm
      have hblank := TokenStream.previousOutside_eq_none
        (Nat.le_of_lt (TokenStream.lt_of_kindIn heof)) hnone
      obtain ⟨ha, hmc⟩ := hrow.within (by decide) (fun l _ hl => hblank l hl) hak hkc h₁ h₂
      obtain rfl := hend heof hmc
      obtain rfl : a = 0 := Nat.le_zero.1 ha
      exact .ending heof rfl hshows
    | @endFill m last hr heof hlast hlt =>
      obtain ⟨h₁, h₂, -⟩ := Change.of_mem_fill he hlt
      obtain ⟨-, -, hblank⟩ := (TokenStream.previousOutside_eq_some_iff
        (Nat.le_of_lt (TokenStream.lt_of_kindIn heof))).1 hlast
      obtain ⟨ha, hmc⟩ := hrow.within (by decide) hblank hak hkc h₁ h₂
      obtain rfl := hend heof hmc
      obtain ⟨hnone, hsome⟩ := hrow.previousOutside_of_eof hs heof
      obtain rfl : a = last + 1 := by
        cases a with
        | zero =>
          rw [hnone rfl] at hlast
          cases hlast
        | succ i =>
          rw [hsome i rfl] at hlast
          rw [Option.some.inj hlast]
      exact .ending heof (by simp) hshows
    | endAppend hr heof hlast =>
      obtain ⟨x', y', hn', -⟩ := hch'.of_append hs
      rw [List.mem_singleton.1 he] at hsolid
      exact absurd hn'.solidLeft (hsolid hn'.left)
    | tabs hr hget hkind hindent =>
      obtain ⟨h₁, h₂, -⟩ := Change.of_mem_fill he (Nat.lt_succ_self _)
      obtain rfl : e.1 = _ := Nat.le_antisymm (Nat.le_of_lt_succ h₂) h₁
      exact .tabs hr hget hkind hindent hshows

end Passed

end TwigStyle
