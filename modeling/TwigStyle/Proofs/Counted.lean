import TwigStyle.Proofs.Demands

/-!
# Gaps by their number

A pass moves tokens to other places, but it keeps the lexemes, so a gap is known by the number of lexemes
before it.  What is wanted of a gap is then the same in two templates with the same lexemes
(`Ruleset.WantsAt.congr`), and the rules have nothing to say about spaces exactly if every gap suits the
tokens around it (`Ruleset.aligned_iff`).
-/

namespace TwigStyle

/-! ### Lexemes and the layout behind them -/

section Laid

variable {ls init lay rest : List Lexeme} {l m : Lexeme}

theorem laid_getElem? (h : ls = init ++ l :: (lay ++ m :: rest)) (hl : Lexeme.isLayout l = false)
    (hlay : ∀ k ∈ lay, Lexeme.isLayout k = true) (hm : Lexeme.isLayout m = false) :
    (laid ls).2[(meaningful init).length]? = some (l, spell lay) := by
  subst h
  induction init with
  | nil =>
    rw [List.nil_append, laid_cons_solid hl, laid_append_of_layout hlay, laid_cons_solid hm]
    simp [meaningful]
  | cons k init ih =>
    rw [List.cons_append]
    cases hk : Lexeme.isLayout k with
    | true =>
      rw [laid_cons_layout hk, meaningful_cons_layout hk]
      exact ih
    | false =>
      rw [laid_cons_solid hk, meaningful_cons_solid hk, List.length_cons, List.getElem?_cons_succ]
      exact ih

theorem exists_split {n : Nat} (h : n + 1 < (meaningful ls).length) :
    ∃ init l lay m rest, ls = init ++ l :: (lay ++ m :: rest) ∧ Lexeme.isLayout l = false ∧
      (∀ k ∈ lay, Lexeme.isLayout k = true) ∧ Lexeme.isLayout m = false ∧
      (meaningful init).length = n := by
  induction ls generalizing n with
  | nil => cases h
  | cons k ls ih =>
    cases hk : Lexeme.isLayout k with
    | true =>
      rw [meaningful_cons_layout hk] at h
      obtain ⟨init, l, lay, m, rest, rfl, hl, hlay, hm, rfl⟩ := ih h
      exact ⟨k :: init, l, lay, m, rest, rfl, hl, hlay, hm, by rw [meaningful_cons_layout hk]⟩
    | false =>
      rw [meaningful_cons_solid hk, List.length_cons] at h
      cases n with
      | zero =>
        cases hlaid : (laid ls).2 with
        | nil =>
          rw [meaningful_eq_laid, hlaid] at h
          cases Nat.lt_of_succ_lt_succ h
        | cons c row =>
          obtain ⟨lay, rest, rfl, hlay, -, hm, -⟩ := split_of_laid (Prod.ext rfl hlaid)
          exact ⟨[], k, lay, c.1, rest, rfl, hk, hlay, hm, rfl⟩
      | succ n =>
        obtain ⟨init, l, lay, m, rest, rfl, hl, hlay, hm, rfl⟩ := ih (Nat.lt_of_succ_lt_succ h)
        exact ⟨k :: init, l, lay, m, rest, rfl, hl, hlay, hm, by rw [meaningful_cons_solid hk]; rfl⟩

end Laid

/-! ### Neighbours -/

namespace TokenStream

variable {s : TokenStream} {i j i' j' n : Nat} {x y x' y' : Token}

theorem Neighbours.right_unique (h : s.Neighbours i j x y) (h' : s.Neighbours i j' x' y') :
    j = j' := by
  have hj := h.nextOutside
  rw [h'.nextOutside] at hj
  exact (Option.some.inj hj).symm

theorem Neighbours.left_unique (h : s.Neighbours i j x y) (h' : s.Neighbours i' j x' y') :
    i = i' := by
  have hi := h.previousOutside
  rw [h'.previousOutside] at hi
  exact (Option.some.inj hi).symm

/-- The layout behind the lexeme with a number, layout not counted. -/
def gapAt (s : TokenStream) (n : Nat) : List Char := ((laid s.lexemes).2[n]?.map Prod.snd).getD []

/-- The number of lexemes, layout not counted. -/
def count (s : TokenStream) : Nat := (meaningful s.lexemes).length

theorem length_before_mono (h : i ≤ i') : (s.before i).length ≤ (s.before i').length := by
  rw [before, before, List.length_reverse, List.length_reverse]
  exact (List.Sublist.filter _ (List.take_sublist_take_left h)).length_le

theorem Neighbours.eq_of_length (hn : s.Neighbours i j x y) (hn' : s.Neighbours i' j' x' y')
    (h : (s.before i).length = (s.before i').length) : i = i' := by
  have hlt : ∀ {i j i' : Nat} {x y : Token}, s.Neighbours i j x y → i < i' →
      (s.before i).length < (s.before i').length := by
    intro i j i' x y hn hlt
    have hmono := length_before_mono (s := s) (Nat.succ_le_of_lt hlt)
    rw [before_succ hn.left, hn.solidLeft] at hmono
    exact hmono
  rcases Nat.lt_trichotomy i i' with hii | heq | hii
  · have := hlt hn hii
    omega
  · exact heq
  · have := hlt hn' hii
    omega

theorem gapText_eq (s : TokenStream) (i j : Nat) :
    s.gapText i j = spell ((s.lexemes.take j).drop (i + 1)) := by
  rw [gapText, between, List.map_drop, List.map_take]
  rfl

theorem Neighbours.meaningful_eq (hn : s.Neighbours i j x y) :
    meaningful s.lexemes =
      (s.before i).reverse ++ x.lexeme :: y.lexeme :: meaningful (s.lexemes.drop (j + 1)) := by
  have hbefore : s.before (j + 1) = y.lexeme :: x.lexeme :: s.before i := by
    rw [before_succ hn.right, hn.solidRight, hn.before_right]
    rfl
  have hsplit : meaningful s.lexemes =
      (s.before (j + 1)).reverse ++ meaningful (s.lexemes.drop (j + 1)) := by
    rw [before, List.reverse_reverse, ← meaningful_append, List.take_append_drop]
  rw [hsplit, hbefore]
  simp

theorem neighbours_of_split {init lay rest : List Lexeme} {l m : Lexeme}
    (h : s.lexemes = init ++ l :: (lay ++ m :: rest)) (hl : Lexeme.isLayout l = false)
    (hlay : ∀ k ∈ lay, Lexeme.isLayout k = true) (hm : Lexeme.isLayout m = false) :
    ∃ x y, s.Neighbours init.length (init.length + 1 + lay.length) x y := by
  have hat : ∀ k, s.lexemes[init.length + k]? = (l :: (lay ++ m :: rest))[k]? := by
    intro k
    rw [h, List.getElem?_append_right (by omega), Nat.add_sub_cancel_left]
  have hx := hat 0
  have hy := hat (1 + lay.length)
  rw [Nat.add_comm 1, List.getElem?_cons_succ, List.getElem?_append_right (Nat.le_refl _),
    Nat.sub_self, lexemes_getElem?] at hy
  rw [lexemes_getElem?] at hx
  obtain ⟨x, hx, hxl⟩ := Option.map_eq_some_iff.1 hx
  obtain ⟨y, hy, hym⟩ := Option.map_eq_some_iff.1 hy
  refine ⟨x, y, by omega, hx, ?_, by rw [hxl]; exact hl, by rw [hym]; exact hm, ?_⟩
  · rw [Nat.add_assoc, Nat.add_comm 1]
    exact hy
  · intro k hik hkj
    obtain ⟨n, rfl⟩ : ∃ n, k = init.length + (n + 1) := ⟨k - init.length - 1, by omega⟩
    have hk := hat (n + 1)
    rw [List.getElem?_cons_succ, List.getElem?_append_left (by omega)] at hk
    have hlt : n < lay.length := by omega
    rw [List.getElem?_eq_getElem hlt] at hk
    exact kindIn_iff_lexeme.2 ⟨_, hk, List.contains_iff_mem.1 (hlay _ (List.getElem_mem hlt))⟩

theorem exists_neighbours_at (h : n + 1 < s.count) :
    ∃ i j x y, s.Neighbours i j x y ∧ (s.before i).length = n := by
  obtain ⟨init, l, lay, m, rest, hls, hl, hlay, hm, hn⟩ := exists_split h
  obtain ⟨x, y, hneighbours⟩ := neighbours_of_split hls hl hlay hm
  refine ⟨_, _, x, y, hneighbours, ?_⟩
  rw [before, hls, List.take_left' rfl, List.length_reverse, hn]

theorem Neighbours.lexemes_eq (hn : s.Neighbours i j x y) :
    s.lexemes = s.lexemes.take i ++ x.lexeme :: ((s.between i j).map Token.lexeme ++
      y.lexeme :: s.lexemes.drop (j + 1)) := by
  have hlt := hn.lt
  have hgetx := TokenStream.lexeme_of_get? hn.left
  have hgety := TokenStream.lexeme_of_get? hn.right
  obtain ⟨hi, hgetx⟩ := List.getElem?_eq_some_iff.1 hgetx
  obtain ⟨hj, hgety⟩ := List.getElem?_eq_some_iff.1 hgety
  have hbetween : (s.between i j).map Token.lexeme = (s.lexemes.drop (i + 1)).take (j - (i + 1)) := by
    rw [TokenStream.between, List.map_drop, List.map_take, List.drop_take]
    rfl
  have hrest : s.lexemes.drop (i + 1) = (s.lexemes.drop (i + 1)).take (j - (i + 1)) ++
      y.lexeme :: s.lexemes.drop (j + 1) := by
    rw [← hgety, ← List.drop_eq_getElem_cons hj]
    have hdrop : s.lexemes.drop j = (s.lexemes.drop (i + 1)).drop (j - (i + 1)) := by
      rw [List.drop_drop, Nat.add_sub_cancel' hlt]
    rw [hdrop, List.take_append_drop]
  rw [hbetween, ← hrest, ← hgetx, ← List.drop_eq_getElem_cons hi, List.take_append_drop]

theorem Neighbours.gapAt_eq (hn : s.Neighbours i j x y) :
    s.gapAt (s.before i).length = s.gapText i j := by
  have hlayout : ∀ l ∈ (s.between i j).map Token.lexeme, Lexeme.isLayout l = true := by
    intro l hl
    obtain ⟨t, ht, rfl⟩ := List.mem_map.1 hl
    obtain ⟨k, hik, hkj, hk⟩ := mem_between.1 ht
    exact isLayout_of_kindIn hk (List.Subset.refl _) (hn.between k hik hkj)
  have hrow := laid_getElem? hn.lexemes_eq hn.solidLeft hlayout hn.solidRight
  rw [gapAt, before, List.length_reverse, hrow]
  rfl

theorem Neighbours.lt_count (hs : s.Regular) (hn : s.Neighbours i j x y) (hy : y.kind ≠ .eof) :
    (s.before i).length + 2 < s.count := by
  -- The lexemes up to the second token do not reach the end of the file.
  have hcount : s.count = (s.before i).length + 2 + (meaningful (s.lexemes.drop (j + 1))).length := by
    rw [count, hn.meaningful_eq]
    simp
    omega
  have hj := get?_lt hn.right
  have hne : j + 1 ≠ s.size := by
    intro hsize
    obtain ⟨z, hz, hkind⟩ := kindIn_iff.1 ((hs.ended j).2 hsize)
    obtain rfl : y = z := Option.some.inj (hn.right.symm.trans hz)
    exact hy (List.mem_singleton.1 hkind)
  obtain ⟨e, he, hkind⟩ := kindIn_iff.1 ((hs.ended (s.size - 1)).2 (by omega))
  have hmem : e.lexeme ∈ meaningful (s.lexemes.drop (j + 1)) := by
    refine List.mem_filter.2 ⟨List.mem_of_getElem? (i := s.size - 1 - (j + 1)) ?_, ?_⟩
    · rw [List.getElem?_drop, Nat.add_sub_cancel' (by omega), lexemes_getElem?, he]
      rfl
    · change (!TokenKind.layout.contains e.kind) = true
      rw [List.mem_singleton.1 hkind]
      rfl
  have := List.length_pos_of_mem hmem
  omega

theorem Neighbours.count_of_eof (hs : s.Regular) (hn : s.Neighbours i j x y) (hy : y.kind = .eof) :
    s.count = (s.before i).length + 2 := by
  have hsize : j + 1 = s.size := (hs.ended j).1 (kindIn_iff.2 ⟨y, hn.right, by simp [hy]⟩)
  have hcount : s.count = (s.before s.size).length := by
    have hall : s.lexemes.take s.size = s.lexemes :=
      List.take_of_length_le (by simp [lexemes, size])
    rw [before, List.length_reverse, hall, count]
  rw [hcount, ← hsize, before_succ hn.right, hn.solidRight, hn.before_right]
  rfl

end TokenStream

/-! ### What is wanted -/

/-- A width that is wanted on a side of a gap, known by its number. -/
def Ruleset.WantsAt (rs : Ruleset) (s : TokenStream) (n : Nat) (side : Spacing.Side) (w : Nat) :
    Prop :=
  ∃ i j x y, s.Neighbours i j x y ∧ (s.before i).length = n ∧ w ∈ rs.widths s (side.token i j) side

/-- The gap has every width that is wanted. -/
def Ruleset.Suits (rs : Ruleset) (s : TokenStream) (n : Nat) (g : List Char) : Prop :=
  ∀ side w, rs.WantsAt s n side w → g = List.replicate w ' '

namespace Ruleset

variable {rs : Ruleset} {s s' : TokenStream} {n w : Nat} {side : Spacing.Side}

theorem WantsAt.congr (hs : s.Regular) (hs' : s'.Regular)
    (hsame : meaningful s'.lexemes = meaningful s.lexemes) (h : rs.WantsAt s n side w) :
    rs.WantsAt s' n side w := by
  obtain ⟨i, j, x, y, hn, rfl, hw⟩ := h
  have hcount : (s.before i).length + 1 < s'.count := by
    rw [TokenStream.count, hsame, hn.meaningful_eq]
    simp
  obtain ⟨i', j', x', y', hn', hnumber⟩ := TokenStream.exists_neighbours_at hcount
  have hrow := hsame
  rw [hn.meaningful_eq, hn'.meaningful_eq] at hrow
  obtain ⟨hbefore, hcons⟩ := List.append_inj hrow (by simpa using hnumber)
  obtain ⟨hx, hcons⟩ := List.cons.inj hcons
  obtain ⟨hy, -⟩ := List.cons.inj hcons
  exact ⟨i', j', x', y', hn', hnumber,
    (mem_widths_congr hs hs' hn hn' hx hy (List.reverse_inj.1 hbefore) side).2 hw⟩

/-- Every gap has a line break or the widths that are wanted. -/
def Aligned (rs : Ruleset) (s : TokenStream) : Prop :=
  ∀ n, n + 2 < s.count → hasBreak (s.gapAt n) = true ∨ rs.Suits s n (s.gapAt n)

/-- The same width is wanted of a gap from both sides, unless it has a line break. -/
def Agreed (rs : Ruleset) (s : TokenStream) : Prop :=
  ∀ n, n + 2 < s.count → hasBreak (s.gapAt n) = false → ∀ side side' w w',
    rs.WantsAt s n side w → rs.WantsAt s n side' w' → w = w'

theorem Aligned.agreed (h : rs.Aligned s) : rs.Agreed s := by
  intro n hn hbreak side side' w w' hw hw'
  rcases h n hn with hsome | hsuits
  · rw [hsome] at hbreak
    cases hbreak
  · have heq := (hsuits side w hw).symm.trans (hsuits side' w' hw')
    simpa using congrArg List.length heq

/-- Nothing is proposed about spaces exactly if the gaps are aligned. -/
theorem aligned_iff (hs : s.Regular) : rs.Aligned s ↔ ∀ ch, ¬rs.Respaces s ch := by
  constructor
  · intro haligned ch hch
    obtain ⟨i, j, x, y, side, w, hn, hw, hbreak, hbad, -⟩ := hch.exists_bad
    have hinner : (s.before i).length + 2 < s.count := by
      have hy : y.kind ≠ .eof := by
        intro hy
        have hmem := mem_wants.2 ⟨side, hw⟩
        rw [wants_of_eof hs hn hy] at hmem
        cases hmem
      exact hn.lt_count hs hy
    rw [← hn.gapAt_eq] at hbreak hbad
    rcases haligned _ hinner with hsome | hsuits
    · rw [hsome] at hbreak
      cases hbreak
    · exact hbad (hsuits side w ⟨i, j, x, y, hn, rfl, hw⟩)
  · intro hnone n _
    cases hbreak : hasBreak (s.gapAt n) with
    | true => exact .inl rfl
    | false =>
      refine .inr fun side w hw => ?_
      obtain ⟨i, j, x, y, hn, rfl, hw⟩ := hw
      apply Classical.byContradiction
      intro hbad
      rw [hn.gapAt_eq] at hbreak hbad
      exact hnone _ (respaces_of_bad hn hw hbreak hbad)

end Ruleset

end TwigStyle
