import TwigStyle.Proofs.RowEdits

/-!
# Passes align the gaps

A pass without a conflict keeps the gaps that suit the tokens around them and gives every other gap that
is not empty a width that is wanted of it.  An empty gap may have to wait: its tokens can be edited only
once in a pass, and each of them stands at two gaps (`Progress`).  But then the gap on the other side has
been opened, so no gap waits twice (`Advances.opened`), and three passes align every gap about which
there is no dispute (`Advances.aligned_of_agreed`).  Where tokens want spaces on one side only, no gap
has to wait, and one pass aligns them all (`Passed.aligned_of_oneSided`).
-/

namespace TwigStyle

/-! ### What a pass does between two tokens -/

namespace Passed

variable {rs : Ruleset} {s : TokenStream} {lineBreak : List Char} {b : EditBuffer} {i j k : Nat}
  {x y : Token}

theorem fill_of_edited (h : Passed rs s lineBreak b) (hn : s.Neighbours i j x y)
    (hy : y.kind ≠ .eof) (hbreak : hasBreak (s.gapText i j) = false) (hik : i < k) (hkj : k < j)
    (hedited : ¬b.IsFree k) :
    ∃ w ∈ rs.wants s i j, s.gapText i j ≠ List.replicate w ' ' ∧
      b.Shows s (.fill (i + 1) j (List.replicate w ' ')) := by
  have hs := h.regular
  have hno : ∀ l, i < l → l < j → ¬s.kindIn l TokenKind.breaks = true := by
    intro l hil hlj hl
    rw [TokenStream.gapText_eq] at hbreak
    exact absurd (hs.hasBreak_layoutText hil hlj hl) (Bool.eq_false_iff.1 hbreak)
  have heof : ∀ {m}, s.kindIn m [.eof] = true → j < m := by
    intro m hm
    have hsize := TokenStream.get?_lt hn.right
    have hlast := (hs.ended m).1 hm
    apply Classical.byContradiction
    intro hle
    obtain rfl : m = j := by omega
    exact hy (List.mem_singleton.1 (TokenStream.get?_of_kindIn hn.right hm))
  cases h.rowEdit hn.toRow hik hkj hedited with
  | gap hi hn' hw hbreak' hbad hshows =>
    obtain rfl := Nat.succ.inj hi
    exact ⟨_, hw, hbad, hshows⟩
  | @trailing e hr hend hej hstart hke =>
    -- The end of the line is the second token or stands before it.
    obtain ⟨z, hz, hkind⟩ := TokenStream.kindIn_iff.1 hend
    have hends : ∀ kind ∈ Layout.lineEnds, kind ∈ TokenKind.breaks ∨ kind = .eof := by decide
    rcases hends _ hkind with hzbreak | hzeof
    · have hbreaks := TokenStream.kindIn_iff.2 ⟨z, hz, hzbreak⟩
      rcases Nat.eq_or_lt_of_le hej with rfl | hlt
      · exact absurd hbreaks (TokenStream.not_kindIn_layout hn.right hn.solidRight (by decide))
      · exact absurd hbreaks (hno e (by omega) hlt)
    · have := heof (TokenStream.kindIn_iff.2 ⟨z, hz, by simp [hzeof]⟩)
      omega
  | tabs hr ht hkind hindent =>
    obtain hi | ⟨m, him, hmk, hm⟩ := (hn.toRow.inIndentation_iff hik hkj).1 hindent
    · cases hi
    · exact absurd hm (hno m him (by omega))
  | ending hend => exact absurd (heof hend) (Nat.lt_irrefl j)

end Passed

theorem EditBuffer.Shows.emptied {b : EditBuffer} {s : TokenStream} {start stop k : Nat}
    {text : List Char} (h : b.Shows s (.fill start stop text)) (hk : start < k) (hstop : k < stop) :
    b.values[k]? = some [] := by
  refine (h (k, []) (List.mem_cons_of_mem _ ?_)).1
  exact List.mem_map.2 ⟨k, List.mem_range'_1.2 ⟨hk, by omega⟩, rfl⟩

namespace Piece.Adjacent

variable {s : TokenStream} {b : EditBuffer} {i : Nat} {p q : Piece} {lay : List Piece}

theorem spell_ne_nil (h : Adjacent s b i p lay q) (hs : s.Regular) (hne : lay ≠ []) :
    spell (lay.map Piece.lexeme) ≠ [] := by
  obtain ⟨m, lay, rfl⟩ := List.exists_cons_of_ne_nil hne
  intro hnil
  rw [List.map_cons, spell_cons, List.append_eq_nil_iff] at hnil
  have hmem := List.mem_of_getElem? (h.between 0 m rfl).token
  refine hs.value _ hmem (fun heof => ?_) hnil.1
  have hlayout := h.layout m List.mem_cons_self
  rw [Lexeme.isLayout, heof] at hlayout
  cases hlayout

theorem bodies_of_free (h : Adjacent s b i p lay q) (hb : b.Holds s)
    (hfree : ∀ k, i < k → k < i + 1 + lay.length → b.IsFree k) :
    (lay.map Piece.body).flatten = spell (lay.map Piece.lexeme) := by
  have hsame : ∀ m ∈ lay, m.body = m.lexeme.2 := by
    intro m hm
    obtain ⟨k, hk⟩ := List.getElem?_of_mem hm
    have hlt := (List.getElem?_eq_some_iff.1 hk).1
    obtain ⟨hold, hnew⟩ := h.value hk
    have hvalue := hb.value (i + 1 + k) (hfree _ (by omega) (by omega))
    rw [hold, hnew] at hvalue
    exact Option.some.inj hvalue
  rw [spell, List.map_map]
  exact congrArg List.flatten (List.map_congr_left hsame)

theorem bodies_of_fill (h : Adjacent s b i p lay q) (hne : lay ≠ []) {text : List Char}
    (hshows : b.Shows s (.fill (i + 1) (i + 1 + lay.length) text)) :
    (lay.map Piece.body).flatten = text := by
  obtain ⟨m, lay, rfl⟩ := List.exists_cons_of_ne_nil hne
  have hfirst : m.body = text := by
    have hvalue := (h.value (k := 0) (m := m) rfl).2
    rw [Nat.add_zero, (hshows (i + 1, text) List.mem_cons_self).1] at hvalue
    exact (Option.some.inj hvalue).symm
  have hothers : ∀ v ∈ lay.map Piece.body, v = [] := by
    intro v hv
    obtain ⟨m', hm', rfl⟩ := List.mem_map.1 hv
    obtain ⟨k, hk⟩ := List.getElem?_of_mem hm'
    have hlt := (List.getElem?_eq_some_iff.1 hk).1
    have hvalue := (h.value (k := k + 1) (m := m') (by rw [List.getElem?_cons_succ, hk])).2
    rw [hshows.emptied (k := i + 1 + (k + 1)) (by omega)
      (by rw [List.length_cons]; omega)] at hvalue
    exact (Option.some.inj hvalue).symm
  rw [List.map_cons, List.flatten_cons, hfirst, List.flatten_eq_nil_iff.2 hothers, List.append_nil]

end Piece.Adjacent

namespace Passed

variable {rs : Ruleset} {s s' : TokenStream} {lineBreak : List Char} {b : EditBuffer}
  {ps init lay rest : List Piece} {p q : Piece} {n : Nat} {x y : Token}

section

variable (h : Passed rs s lineBreak b) (hr : Renewal rs s lineBreak b ps s')
  (hsite : Renewal.Site s s' b ps n init p lay q rest x y)
include h hr hsite

theorem back_of_site (hback : p.back ≠ []) :
    lay = [] ∧ ((∃ w ∈ rs.widths s init.length .after, w ≠ 0 ∧ p.back = List.replicate w ' ') ∨
      y.kind = .eof ∧ p.back = lineBreak) := by
  obtain ⟨x', y', hn, hreason⟩ :=
    ((hr.told _ p hsite.getElem?_left).appended hback).of_append h.regular
  have hlength := hn.right_unique hsite.neighbours
  refine ⟨List.eq_nil_of_length_eq_zero (by omega), hreason.imp_right fun ⟨heof, htext⟩ => ?_⟩
  have hright := hsite.neighbours.right
  rw [← hlength, hn.right] at hright
  rw [← Option.some.inj hright]
  exact ⟨heof, htext⟩

theorem front_of_site (hfront : q.front ≠ []) :
    lay = [] ∧ ∃ w ∈ rs.widths s (init.length + 1 + lay.length) .before, w ≠ 0 ∧
      q.front = List.replicate w ' ' := by
  obtain ⟨i, x', y', w, hi, hn, hw, hne, htext⟩ :=
    ((hr.told _ q hsite.getElem?_right).prepended hfront).of_prepend h.regular
  have hn' := hsite.neighbours
  rw [hi] at hn' ⊢
  have hlength := hn.left_unique hn'
  exact ⟨List.eq_nil_of_length_eq_zero (by omega), w, hw, hne, htext⟩

end

/-- What may become of a gap without a line break: an empty one is opened from either side, any other
    one is kept or gets a width that is wanted. -/
inductive Becomes (rs : Ruleset) (s : TokenStream) (i j : Nat) (old new : List Char) : Prop
  | opened (back front : List Char) (hold : old = []) (hnew : new = back ++ front)
      (hback : back ≠ [] → ∃ w ∈ rs.widths s i .after, w ≠ 0 ∧ back = List.replicate w ' ')
      (hfront : front ≠ [] → ∃ w ∈ rs.widths s j .before, w ≠ 0 ∧ front = List.replicate w ' ')
  | kept (hold : old ≠ []) (hnew : new = old)
      (hgood : ∀ w ∈ rs.wants s i j, old = List.replicate w ' ')
  | filled {w : Nat} (hold : old ≠ []) (hw : w ∈ rs.wants s i j) (hbad : old ≠ List.replicate w ' ')
      (hnew : new = List.replicate w ' ')

theorem becomes (h : Passed rs s lineBreak b) (hr : Renewal rs s lineBreak b ps s')
    (hsite : Renewal.Site s s' b ps n init p lay q rest x y) (hy : y.kind ≠ .eof)
    (hbreak : hasBreak (s.gapAt n) = false) :
    Becomes rs s init.length (init.length + 1 + lay.length) (s.gapAt n) (s'.gapAt n) := by
  rw [← hsite.text] at hbreak
  by_cases hlay : lay = []
  · subst hlay
    refine .opened p.back q.front hsite.old (by rw [hsite.new]; simp) ?_ ?_
    · exact fun hback => (h.back_of_site hr hsite hback).2.resolve_right fun heof => hy heof.1
    · exact fun hfront => (h.front_of_site hr hsite hfront).2
  · have hlength : 0 < lay.length := List.length_pos_iff.2 hlay
    have hback : p.back = [] := by
      apply Classical.byContradiction
      exact fun hne => hlay (h.back_of_site hr hsite hne).1
    have hfront : q.front = [] := by
      apply Classical.byContradiction
      exact fun hne => hlay (h.front_of_site hr hsite hne).1
    have hnew : s'.gapAt n = (lay.map Piece.body).flatten := by
      rw [hsite.new, hback, hfront, List.nil_append, List.append_nil]
    have hold : s.gapAt n ≠ [] := by
      rw [hsite.old]
      exact hsite.adjacent.spell_ne_nil h.regular hlay
    by_cases hfree : ∀ k, init.length < k → k < init.length + 1 + lay.length → b.IsFree k
    · refine .kept hold ?_ ?_
      · rw [hnew, hsite.adjacent.bodies_of_free h.holds hfree, hsite.old]
      · intro w hw
        apply Classical.byContradiction
        intro hbad
        rw [← hsite.text] at hbad
        obtain ⟨e, he, hedited⟩ := h.tried ((Ruleset.proposed_iff h.regular).2
          (.inl (.fill hsite.neighbours (by omega) hw hbreak hbad)))
        obtain ⟨h₁, h₂, -⟩ := Change.of_mem_fill he (by omega)
        exact hedited (hfree e.1 h₁ h₂)
    · obtain ⟨k, hk⟩ := Classical.not_forall.1 hfree
      simp only [Classical.not_imp] at hk
      obtain ⟨w, hw, hbad, hshows⟩ :=
        h.fill_of_edited hsite.neighbours hy hbreak hk.1 hk.2.1 hk.2.2
      rw [hsite.text] at hbad
      exact .filled hold hw hbad (by rw [hnew, hsite.adjacent.bodies_of_fill hlay hshows])

end Passed

/-! ### Progress -/

/-- What a pass does to the gaps between lexemes.  A gap that has a wrong width gets one that is wanted.
    An empty gap is opened, or one next to it is. -/
structure Progress (rs : Ruleset) (s s' : TokenStream) : Prop where
  lexemes : meaningful s'.lexemes = meaningful s.lexemes
  breaks : ∀ n, n + 2 < s.count → hasBreak (s'.gapAt n) = hasBreak (s.gapAt n)
  filled : ∀ n, n + 2 < s.count → hasBreak (s.gapAt n) = false → s.gapAt n ≠ [] →
    ¬rs.Suits s n (s.gapAt n) → ∃ side w, rs.WantsAt s n side w ∧ s'.gapAt n = List.replicate w ' '
  kept : ∀ n, n + 2 < s.count → hasBreak (s.gapAt n) = false → rs.Suits s n (s.gapAt n) →
    s'.gapAt n = s.gapAt n
  openedAfter : ∀ n w, n + 2 < s.count → s.gapAt n = [] → rs.WantsAt s n .after w → w ≠ 0 →
    s'.gapAt n ≠ [] ∨ ∃ m, m + 1 = n ∧ s.gapAt m = [] ∧ s'.gapAt m ≠ []
  openedBefore : ∀ n w, n + 2 < s.count → s.gapAt n = [] → rs.WantsAt s n .before w → w ≠ 0 →
    s'.gapAt n ≠ [] ∨ s.gapAt (n + 1) = [] ∧ s'.gapAt (n + 1) ≠ []

namespace Renewal.Site

variable {rs : Ruleset} {s s' : TokenStream} {b : EditBuffer}
  {ps init lay rest : List Piece} {p q : Piece} {n : Nat} {x y : Token}
variable (hsite : Site s s' b ps n init p lay q rest x y)
include hsite

theorem inner (hs : s.Regular) (hn : n + 2 < s.count) : y.kind ≠ .eof := by
  intro hy
  have hcount := hsite.neighbours.count_of_eof hs hy
  rw [hsite.number] at hcount
  omega

theorem lay_eq_nil (hs : s.Regular) (hold : s.gapAt n = []) : lay = [] := by
  apply Classical.byContradiction
  intro hlay
  rw [hsite.old] at hold
  exact hsite.adjacent.spell_ne_nil hs hlay hold

theorem wantsAt_iff {side : Spacing.Side} {w : Nat} : rs.WantsAt s n side w ↔
      w ∈ rs.widths s (side.token init.length (init.length + 1 + lay.length)) side := by
  constructor
  · rintro ⟨i, j, x', y', hn, hnumber, hw⟩
    obtain rfl := hn.eq_of_length hsite.neighbours (hnumber.trans hsite.number.symm)
    rwa [hn.right_unique hsite.neighbours] at hw
  · exact fun hw => ⟨_, _, x, y, hsite.neighbours, hsite.number, hw⟩

theorem suits_iff {g : List Char} : rs.Suits s n g ↔
      ∀ w ∈ rs.wants s init.length (init.length + 1 + lay.length), g = List.replicate w ' ' := by
  constructor
  · intro h w hw
    obtain ⟨side, hw⟩ := Ruleset.mem_wants.1 hw
    exact h side w (hsite.wantsAt_iff.2 hw)
  · intro h side w hw
    exact h w (Ruleset.mem_wants.2 ⟨side, hsite.wantsAt_iff.1 hw⟩)

end Renewal.Site

theorem hasBreak_replicate (w : Nat) : hasBreak (List.replicate w ' ') = false := by
  rw [hasBreak, List.any_eq_false]
  intro c hc
  rw [List.eq_of_mem_replicate hc]
  decide

namespace Passed

variable {rs : Ruleset} {s s' : TokenStream} {lineBreak : List Char} {b : EditBuffer}
  {ps init lay rest : List Piece} {p q : Piece} {n : Nat} {x y : Token}

section

variable (h : Passed rs s lineBreak b) (hr : Renewal rs s lineBreak b ps s')
  (hsite : Renewal.Site s s' b ps n init p lay q rest x y)
include h hr hsite

theorem opened_left (hfront : p.front ≠ []) :
    ∃ m, m + 1 = n ∧ s.gapAt m = [] ∧ s'.gapAt m ≠ [] := by
  obtain ⟨i, x', y', w, hi, hn, -, -, -⟩ :=
    ((hr.told _ p hsite.getElem?_left).prepended hfront).of_prepend h.regular
  -- The piece before it is no layout.
  rcases List.eq_nil_or_concat init with rfl | ⟨init, p', rfl⟩
  · cases hi
  rw [List.concat_eq_append] at hsite hi
  obtain rfl : init.length = i := by simpa using hi
  have hps : ps = init ++ p' :: ([] ++ p :: (lay ++ q :: rest)) := by
    rw [hsite.split]
    simp
  have hp' : Lexeme.isLayout p'.lexeme = false := by
    have htoken := (hr.told init.length p' (by rw [hps]; simp)).token
    rw [TokenStream.lexemes_getElem?, hn.left] at htoken
    rw [← Option.some.inj htoken]
    exact hn.solidLeft
  obtain ⟨x'', y'', hsite'⟩ := hr.site_of_split h.holds hps hp' nofun hsite.adjacent.solidLeft
  refine ⟨_, ?_, hsite'.old, ?_⟩
  · have hbefore := congrArg List.length hn.before_right
    rw [List.length_cons, hsite'.number] at hbefore
    rw [← hbefore, ← hsite.number]
    simp
  · rw [hsite'.new]
    simp [hfront]

theorem opened_right (hback : q.back ≠ []) : s.gapAt (n + 1) = [] ∧ s'.gapAt (n + 1) ≠ [] := by
  obtain ⟨x', y', hn, -⟩ :=
    ((hr.told _ q hsite.getElem?_right).appended hback).of_append h.regular
  -- The piece behind it is no layout.
  have hlt := TokenStream.get?_lt hn.right
  rw [← hr.length, hsite.split] at hlt
  obtain ⟨q', rest, rfl⟩ : ∃ q' rest', rest = q' :: rest' := by
    apply List.exists_cons_of_ne_nil
    rintro rfl
    simp at hlt
    omega
  have hps : ps = (init ++ p :: lay) ++ q :: ([] ++ q' :: rest) := by
    rw [hsite.split]
    simp
  have hlength : (init ++ p :: lay).length = init.length + 1 + lay.length := by
    simp
    omega
  have hq' : Lexeme.isLayout q'.lexeme = false := by
    have hat : ps[init.length + 1 + lay.length + 1]? = some q' := by
      rw [hps, ← hlength, List.getElem?_append_right (by omega)]
      simp
    have htoken := (hr.told _ q' hat).token
    rw [TokenStream.lexemes_getElem?, hn.right] at htoken
    rw [← Option.some.inj htoken]
    exact hn.solidRight
  obtain ⟨x'', y'', hsite'⟩ := hr.site_of_split h.holds hps hsite.adjacent.solidRight nofun hq'
  have hnumber : (meaningful ((init ++ p :: lay).map Piece.lexeme)).length = n + 1 := by
    have hbefore := congrArg List.length hsite.neighbours.before_right
    rw [List.length_cons, hsite.number, ← hlength, hsite'.number] at hbefore
    exact hbefore
  rw [hnumber] at hsite'
  refine ⟨hsite'.old, ?_⟩
  rw [hsite'.new]
  simp [hback]

theorem breaks_of_site (hy : y.kind ≠ .eof) : hasBreak (s'.gapAt n) = hasBreak (s.gapAt n) := by
  cases hbreak : hasBreak (s.gapAt n) with
  | true =>
    have hq : q.lexeme.1 ≠ .eof := by
      rw [← hsite.right]
      exact hy
    have hlink := hsite.adjacent.link h.regular.ended h.holds h.made h.regular.value hq
    rw [hsite.new]
    exact hlink.breaks (by rw [← hbreak, hsite.old]; rfl)
  | false =>
    have hspaces : ∀ {g : List Char} {ws : List Nat},
        (g ≠ [] → ∃ w ∈ ws, w ≠ 0 ∧ g = List.replicate w ' ') → hasBreak g = false := by
      intro g ws hg
      by_cases hnil : g = []
      · rw [hnil]
        rfl
      · obtain ⟨w, -, -, rfl⟩ := hg hnil
        exact hasBreak_replicate w
    cases h.becomes hr hsite hy hbreak with
    | opened back front hold hnew hback hfront =>
      rw [hnew, hasBreak_append, hspaces hback, hspaces hfront]
      rfl
    | kept hold hnew => rw [hnew, hbreak]
    | filled hold hw hbad hnew => rw [hnew, hasBreak_replicate]

theorem kept_of_site (hy : y.kind ≠ .eof) (hbreak : hasBreak (s.gapAt n) = false)
    (hgood : rs.Suits s n (s.gapAt n)) : s'.gapAt n = s.gapAt n := by
  cases h.becomes hr hsite hy hbreak with
  | opened back front hold hnew hback hfront =>
    -- Every wanted width is 0, so nothing is put there.
    have hnone : ∀ {side w}, rs.WantsAt s n side w → w = 0 := by
      intro side w hw
      have hwidth := hgood side w hw
      rw [hold] at hwidth
      simpa using hwidth.symm
    have hback : back = [] := by
      apply Classical.byContradiction
      intro hne
      obtain ⟨w, hw, hw₀, -⟩ := hback hne
      have hwants : rs.WantsAt s n .after w := hsite.wantsAt_iff.2 hw
      exact hw₀ (hnone hwants)
    have hfront : front = [] := by
      apply Classical.byContradiction
      intro hne
      obtain ⟨w, hw, hw₀, -⟩ := hfront hne
      have hwants : rs.WantsAt s n .before w := hsite.wantsAt_iff.2 hw
      exact hw₀ (hnone hwants)
    rw [hnew, hold, hback, hfront]
    rfl
  | kept hold hnew => exact hnew
  | filled hold hw hbad hnew => exact absurd (hsite.suits_iff.1 hgood _ hw) hbad

theorem opened_of_site (hold : s.gapAt n = []) {w : Nat} (hne : w ≠ 0) : (rs.WantsAt s n .after w →
      s'.gapAt n ≠ [] ∨ ∃ m, m + 1 = n ∧ s.gapAt m = [] ∧ s'.gapAt m ≠ []) ∧
    (rs.WantsAt s n .before w →
      s'.gapAt n ≠ [] ∨ s.gapAt (n + 1) = [] ∧ s'.gapAt (n + 1) ≠ []) := by
  obtain rfl := hsite.lay_eq_nil h.regular hold
  have hnew : s'.gapAt n = p.back ++ q.front := by
    rw [hsite.new]
    simp
  rw [hnew]
  constructor
  · intro hw
    obtain ⟨e, he, hedited⟩ := h.tried ((Ruleset.proposed_iff h.regular).2
      (.inl (.append hsite.neighbours (hsite.wantsAt_iff.1 hw) hne)))
    rw [List.mem_singleton.1 he] at hedited
    rcases (hr.told _ p hsite.getElem?_left).edited hsite.adjacent.solidLeft hedited with
      hfront | hback
    · exact .inr (h.opened_left hr hsite hfront)
    · exact .inl (by simp [hback])
  · intro hw
    obtain ⟨e, he, hedited⟩ := h.tried ((Ruleset.proposed_iff h.regular).2
      (.inl (.prepend hsite.neighbours (hsite.wantsAt_iff.1 hw) hne)))
    rw [List.mem_singleton.1 he] at hedited
    rcases (hr.told _ q hsite.getElem?_right).edited hsite.adjacent.solidRight hedited with
      hfront | hback
    · exact .inl (by simp [hfront])
    · exact .inr (h.opened_right hr hsite hback)

end

theorem progress (h : Passed rs s lineBreak b) (hr : Renewal rs s lineBreak b ps s') :
    Progress rs s s' := by
  have hsites : ∀ {n}, n + 2 < s.count →
      ∃ init p lay q rest x y, Renewal.Site s s' b ps n init p lay q rest x y ∧ y.kind ≠ .eof := by
    intro n hn
    obtain ⟨init, p, lay, q, rest, x, y, hsite⟩ := hr.exists_site h.holds (Nat.lt_of_succ_lt hn)
    exact ⟨init, p, lay, q, rest, x, y, hsite, hsite.inner h.regular hn⟩
  refine ⟨hr.meaningful_eq, ?_, ?_, ?_, ?_, ?_⟩
  · intro n hn
    obtain ⟨_, _, _, _, _, _, _, hsite, hy⟩ := hsites hn
    exact h.breaks_of_site hr hsite hy
  · intro n hn hbreak hne hbad
    obtain ⟨_, _, _, _, _, _, _, hsite, hy⟩ := hsites hn
    rw [hsite.suits_iff] at hbad
    cases h.becomes hr hsite hy hbreak with
    | opened back front hold => exact absurd hold hne
    | kept hold hnew hgood => exact absurd hgood hbad
    | filled hold hw hbad hnew =>
      obtain ⟨side, hw⟩ := Ruleset.mem_wants.1 hw
      exact ⟨side, _, hsite.wantsAt_iff.2 hw, hnew⟩
  · intro n hn hbreak hgood
    obtain ⟨_, _, _, _, _, _, _, hsite, hy⟩ := hsites hn
    exact h.kept_of_site hr hsite hy hbreak hgood
  · intro n w hn hold hw hne
    obtain ⟨_, _, _, _, _, _, _, hsite, -⟩ := hsites hn
    exact (h.opened_of_site hr hsite hold hne).1 hw
  · intro n w hn hold hw hne
    obtain ⟨_, _, _, _, _, _, _, hsite, -⟩ := hsites hn
    exact (h.opened_of_site hr hsite hold hne).2 hw

end Passed

/-- A pass from a template to another one. -/
structure Advances (rs : Ruleset) (s s' : TokenStream) : Prop extends Progress rs s s' where
  regular : s.Regular
  regular' : s'.Regular

namespace Advances

variable {rs : Ruleset} {s s' s₀ s₁ s₂ s₃ : TokenStream} {n w : Nat} {side : Spacing.Side}

section

variable (h : Advances rs s s')
include h

theorem count_eq : s'.count = s.count := congrArg List.length h.lexemes

theorem wantsAt_iff : rs.WantsAt s' n side w ↔ rs.WantsAt s n side w :=
  ⟨.congr h.regular' h.regular h.lexemes.symm, .congr h.regular h.regular' h.lexemes⟩

theorem suits_iff {g : List Char} : rs.Suits s' n g ↔ rs.Suits s n g := by
  simp only [Ruleset.Suits, h.wantsAt_iff]

theorem agreed_iff : rs.Agreed s' ↔ rs.Agreed s := by
  unfold Ruleset.Agreed
  rw [h.count_eq]
  refine forall_congr' fun n => forall_congr' fun hn => ?_
  simp only [h.wantsAt_iff, h.breaks n hn]

theorem aligned (haligned : rs.Aligned s) : rs.Aligned s' := by
  intro n hn
  rw [h.count_eq] at hn
  rw [h.breaks n hn, h.suits_iff]
  rcases haligned n hn with hbreak | hsuits
  · exact .inl hbreak
  · cases hbreak : hasBreak (s.gapAt n) with
    | true => exact .inl rfl
    | false =>
      rw [h.kept n hn hbreak hsuits]
      exact .inr hsuits

/-- The gap between two lexemes that agree about it has the width they want after a pass, unless it is
    to be opened. -/
theorem gapAt_eq (hn : n + 2 < s.count) (hbreak : hasBreak (s.gapAt n) = false)
    (hw : rs.WantsAt s n side w) (hall : ∀ side' w', rs.WantsAt s n side' w' → w' = w)
    (hgap : s.gapAt n ≠ [] ∨ w = 0) : s'.gapAt n = List.replicate w ' ' := by
  by_cases hsuits : rs.Suits s n (s.gapAt n)
  · rw [h.kept n hn hbreak hsuits]
    exact hsuits side w hw
  · have hne : s.gapAt n ≠ [] := by
      rcases hgap with hne | rfl
      · exact hne
      · intro hnil
        refine hsuits fun side' w' hw' => ?_
        rw [hnil, hall side' w' hw']
        rfl
    obtain ⟨side', w', hw', hnew⟩ := h.filled n hn hbreak hne hsuits
    rw [hnew, hall side' w' hw']

end

/-- An empty gap that is to be opened does not stay empty for two passes.  In the first one the token
    that wants the space can have been edited on its other side, but then there is a gap on that side. -/
theorem opened (h₁ : Advances rs s₀ s₁) (h₂ : Advances rs s₁ s₂) (hn : n + 2 < s₀.count)
    (hw : rs.WantsAt s₀ n side w) (hne : w ≠ 0) (h₀ : s₀.gapAt n = []) (hempty : s₁.gapAt n = []) :
    s₂.gapAt n ≠ [] := by
  have hn₁ : n + 2 < s₁.count := by rwa [h₁.count_eq]
  have hw₁ := h₁.wantsAt_iff.2 hw
  intro hempty₂
  cases side with
  | before =>
    rcases h₁.openedBefore n w hn h₀ hw hne with h | ⟨-, hopen⟩
    · exact h hempty
    · rcases h₂.openedBefore n w hn₁ hempty hw₁ hne with h | ⟨hclosed, -⟩
      · exact h hempty₂
      · exact hopen hclosed
  | after =>
    rcases h₁.openedAfter n w hn h₀ hw hne with h | ⟨m, hm, -, hopen⟩
    · exact h hempty
    · rcases h₂.openedAfter n w hn₁ hempty hw₁ hne with h | ⟨m', hm', hclosed, -⟩
      · exact h hempty₂
      · obtain rfl : m = m' := by omega
        exact hopen hclosed

/-- **Three passes align the gaps** about which there is no dispute. -/
theorem aligned_of_agreed (h₁ : Advances rs s₀ s₁) (h₂ : Advances rs s₁ s₂)
    (h₃ : Advances rs s₂ s₃) (hagreed : rs.Agreed s₀) : rs.Aligned s₃ := by
  intro n hn
  rw [h₃.count_eq, h₂.count_eq, h₁.count_eq] at hn
  have hn₁ : n + 2 < s₁.count := by rwa [h₁.count_eq]
  have hn₂ : n + 2 < s₂.count := by rwa [h₂.count_eq]
  rw [h₃.breaks n hn₂]
  cases hbreak₂ : hasBreak (s₂.gapAt n) with
  | true => exact .inl rfl
  | false =>
    have hbreak₁ : hasBreak (s₁.gapAt n) = false := (h₂.breaks n hn₁).symm.trans hbreak₂
    have hbreak₀ : hasBreak (s₀.gapAt n) = false := (h₁.breaks n hn).symm.trans hbreak₁
    refine .inr fun side w hw₃ => ?_
    have hw₂ := h₃.wantsAt_iff.1 hw₃
    have hw₁ := h₂.wantsAt_iff.1 hw₂
    have hw₀ := h₁.wantsAt_iff.1 hw₁
    have hall₀ : ∀ side' w', rs.WantsAt s₀ n side' w' → w' = w := fun side' w' hw' =>
      hagreed n hn hbreak₀ side' side w' w hw' hw₀
    have hall₁ : ∀ side' w', rs.WantsAt s₁ n side' w' → w' = w := fun side' w' hw' =>
      hall₀ side' w' (h₁.wantsAt_iff.1 hw')
    have hall₂ : ∀ side' w', rs.WantsAt s₂ n side' w' → w' = w := fun side' w' hw' =>
      hall₁ side' w' (h₂.wantsAt_iff.1 hw')
    refine h₃.gapAt_eq hn₂ hbreak₂ hw₂ hall₂ ?_
    by_cases hw : w = 0
    · exact .inr hw
    · refine .inl ?_
      have hwide : List.replicate w ' ' ≠ [] := Passed.replicate_ne_nil hw
      by_cases hempty₁ : s₁.gapAt n = []
      · by_cases hempty₀ : s₀.gapAt n = []
        · exact opened h₁ h₂ hn hw₀ hw hempty₀ hempty₁
        · rw [h₁.gapAt_eq hn hbreak₀ hw₀ hall₀ (.inl hempty₀)] at hempty₁
          exact absurd hempty₁ hwide
      · rw [h₂.gapAt_eq hn₁ hbreak₁ hw₁ hall₁ (.inl hempty₁)]
        exact hwide

end Advances

/-! ### Gaps that are aligned at once -/

/-- No token wants spaces on both of its sides, no gap is wanted from both of its sides, and one width
    is wanted on a side.  Nothing is put at the end of the file. -/
structure Ruleset.OneSided (rs : Ruleset) (s : TokenStream) : Prop where
  token : ∀ {i w w'}, w ∈ rs.widths s i .after → w' ∉ rs.widths s i .before
  gap : ∀ {i j x y w w'}, s.Neighbours i j x y → w ∈ rs.widths s i .after →
    w' ∉ rs.widths s j .before
  width : ∀ {i side w w'}, w ∈ rs.widths s i side → w' ∈ rs.widths s i side → w' = w
  unclosed : ¬rs.Has .blankEof

namespace Ruleset.OneSided

variable {rs : Ruleset} {s : TokenStream} {n w w' : Nat} {side side' : Spacing.Side}

theorem wantsAt_eq (h : rs.OneSided s) (hw : rs.WantsAt s n side w) (hw' : rs.WantsAt s n side' w') :
    w' = w := by
  obtain ⟨i, j, x, y, hn, rfl, hw⟩ := hw
  obtain ⟨i', j', x', y', hn', hi, hw'⟩ := hw'
  obtain rfl := hn.eq_of_length hn' hi.symm
  obtain rfl := hn.right_unique hn'
  cases side with
  | after =>
    cases side' with
    | after => exact h.width hw hw'
    | before => exact absurd hw' (h.gap hn hw)
  | before =>
    cases side' with
    | after => exact absurd hw (h.gap hn hw')
    | before => exact h.width hw hw'

theorem of_append {lineBreak text : List Char} {i : Nat} (h : rs.OneSided s) (hs : s.Regular)
    (hch : rs.Proposed s lineBreak (.append i text)) :
    ∃ w ∈ rs.widths s i .after, text = List.replicate w ' ' := by
  rcases (proposed_iff hs).1 hch with hch | hch
  · cases hch with
    | append _ hw _ => exact ⟨_, hw, rfl⟩
  · cases hch with
    | endAppend hr => exact absurd hr h.unclosed

end Ruleset.OneSided

namespace Passed

variable {rs : Ruleset} {s s' : TokenStream} {lineBreak : List Char} {b : EditBuffer}
  {ps init lay rest : List Piece} {p q : Piece} {n w : Nat} {x y : Token} {side : Spacing.Side}

theorem gapAt_of_oneSided (h : Passed rs s lineBreak b) (hr : Renewal rs s lineBreak b ps s')
    (hone : rs.OneSided s) (hsite : Renewal.Site s s' b ps n init p lay q rest x y)
    (hold : s.gapAt n = []) (hw : rs.WantsAt s n side w) (hne : w ≠ 0) :
    s'.gapAt n = List.replicate w ' ' := by
  have hs := h.regular
  obtain rfl := hsite.lay_eq_nil hs hold
  have hnew : s'.gapAt n = p.back ++ q.front := by
    rw [hsite.new]
    simp
  have hneighbours : s.Neighbours init.length (init.length + 1) x y := hsite.neighbours
  have hw := hsite.wantsAt_iff.1 hw
  have hleft := hr.told _ p hsite.getElem?_left
  have hright := hr.told _ q hsite.getElem?_right
  cases side with
  | after =>
    have hfront : q.front = [] := by
      apply Classical.byContradiction
      intro hfront
      obtain ⟨-, w', hw', -⟩ := h.front_of_site hr hsite hfront
      exact hone.gap hneighbours hw hw'
    obtain ⟨e, he, hedited⟩ := h.tried ((Ruleset.proposed_iff hs).2 (.inl (.append hneighbours hw hne)))
    rw [List.mem_singleton.1 he] at hedited
    rcases hleft.edited hsite.adjacent.solidLeft hedited with hprepended | hback
    · obtain ⟨i, x', y', w', hi, -, hw', -⟩ := (hleft.prepended hprepended).of_prepend hs
      rw [← hi] at hw'
      exact absurd hw' (hone.token hw)
    · obtain ⟨w', hw', htext⟩ := hone.of_append hs (hleft.appended hback)
      rw [hnew, hfront, List.append_nil, htext, hone.width hw hw']
  | before =>
    have hback : p.back = [] := by
      apply Classical.byContradiction
      intro hback
      obtain ⟨w', hw', -⟩ := hone.of_append hs (hleft.appended hback)
      exact hone.gap hneighbours hw' hw
    obtain ⟨e, he, hedited⟩ := h.tried ((Ruleset.proposed_iff hs).2 (.inl (.prepend hneighbours hw hne)))
    rw [List.mem_singleton.1 he] at hedited
    rcases hright.edited hsite.adjacent.solidRight hedited with hfront | happended
    · obtain ⟨-, w', hw', -, htext⟩ := h.front_of_site hr hsite hfront
      rw [hnew, hback, List.nil_append, htext, hone.width hw hw']
    · obtain ⟨w', hw', -⟩ := hone.of_append hs (hright.appended happended)
      exact absurd hw (hone.token hw')

/-- **One pass aligns the gaps** that are wanted from one side only. -/
theorem aligned_of_oneSided (h : Passed rs s lineBreak b) (hr : Renewal rs s lineBreak b ps s')
    (hs' : s'.Regular) (hone : rs.OneSided s) : rs.Aligned s' := by
  have hadvances : Advances rs s s' := ⟨h.progress hr, h.regular, hs'⟩
  intro n hn
  rw [hadvances.count_eq] at hn
  rw [hadvances.breaks n hn]
  cases hbreak : hasBreak (s.gapAt n) with
  | true => exact .inl rfl
  | false =>
    refine .inr fun side w hw => ?_
    have hw := hadvances.wantsAt_iff.1 hw
    by_cases hgap : s.gapAt n ≠ [] ∨ w = 0
    · exact hadvances.gapAt_eq hn hbreak hw (fun side' w' hw' => hone.wantsAt_eq hw hw') hgap
    · obtain ⟨hold, hne⟩ := not_or.1 hgap
      obtain ⟨init, p, lay, q, rest, x, y, hsite⟩ := hr.exists_site h.holds (Nat.lt_of_succ_lt hn)
      exact h.gapAt_of_oneSided hr hone hsite (Classical.not_not.1 hold) hw hne

end Passed

end TwigStyle
