import TwigStyle.Proofs.Progress

/-!
# What a pass makes of a row of layout

Every row of layout of the new template comes from one of the old template, and `NewRow` says what its
text is: the values that the pass has left there, or what it has put between two tokens that stood next
to each other.
-/

namespace TwigStyle

/-! ### The values of a row -/

namespace EditBuffer

variable {b : EditBuffer} {s : TokenStream} {a c k : Nat} {text u v : List Char} {d : Char}

/-- The values of the tokens from `a` up to, not including, `c`, joined. -/
def rowText (b : EditBuffer) (a c : Nat) : List Char :=
  (List.range' a (c - a)).flatMap fun k => b.values[k]?.getD []

theorem rowText_of_le (h : c ≤ a) : b.rowText a c = [] := by
  rw [rowText, Nat.sub_eq_zero_of_le h]
  rfl

theorem rowText_cons (h : a < c) :
    b.rowText a c = b.values[a]?.getD [] ++ b.rowText (a + 1) c := by
  obtain ⟨n, rfl⟩ : ∃ n, c = a + 1 + n := ⟨c - (a + 1), by omega⟩
  have hlength : a + 1 + n - a = n + 1 := by omega
  rw [rowText, rowText, hlength, Nat.add_sub_cancel_left, List.range'_succ, List.flatMap_cons]

theorem rowText_eq_nil_iff :
    b.rowText a c = [] ↔ ∀ k, a ≤ k → k < c → b.values[k]?.getD [] = [] := by
  rw [rowText, List.flatMap_eq_nil_iff]
  simp only [List.mem_range'_1]
  exact forall_congr' fun k => ⟨fun h h₁ h₂ => h ⟨h₁, by omega⟩, fun h hk => h hk.1 (by omega)⟩

theorem exists_of_hasBreak_rowText (h : hasBreak (b.rowText a c) = true) :
    ∃ k, a ≤ k ∧ k < c ∧ hasBreak (b.values[k]?.getD []) = true := by
  rw [hasBreak, rowText, List.any_flatMap] at h
  obtain ⟨k, hk, hbreak⟩ := List.any_eq_true.1 h
  rw [List.mem_range'_1] at hk
  exact ⟨k, hk.1, by omega, hbreak⟩

theorem exists_of_rowText (h : b.rowText a c = u ++ d :: v) :
    ∃ k w₁ w₂, a ≤ k ∧ k < c ∧ b.values[k]?.getD [] = w₁ ++ d :: w₂ ∧ u = b.rowText a k ++ w₁ ∧
      v = w₂ ++ b.rowText (k + 1) c := by
  -- By induction on the length of the row.
  have hrow : ∀ n a u, c - a = n → b.rowText a c = u ++ d :: v → ∃ k w₁ w₂, a ≤ k ∧ k < c ∧
      b.values[k]?.getD [] = w₁ ++ d :: w₂ ∧ u = b.rowText a k ++ w₁ ∧
      v = w₂ ++ b.rowText (k + 1) c := by
    intro n
    induction n with
    | zero =>
      intro a u hn h
      rw [rowText_of_le (by omega)] at h
      exact absurd h.symm (by simp)
    | succ n ih =>
      intro a u hn h
      have hlater : ∀ u', b.rowText (a + 1) c = u' ++ d :: v → u = b.values[a]?.getD [] ++ u' →
          ∃ k w₁ w₂, a ≤ k ∧ k < c ∧ b.values[k]?.getD [] = w₁ ++ d :: w₂ ∧
            u = b.rowText a k ++ w₁ ∧ v = w₂ ++ b.rowText (k + 1) c := by
        intro u' h' hu
        obtain ⟨k, w₁, w₂, hak, hkc, hw, hu', hv⟩ := ih (a + 1) u' (by omega) h'
        refine ⟨k, w₁, w₂, by omega, hkc, hw, ?_, hv⟩
        rw [rowText_cons hak, hu, hu', List.append_assoc]
      rw [rowText_cons (by omega), List.append_eq_append_iff] at h
      rcases h with ⟨u', hu, h⟩ | ⟨w, hvalue, h⟩
      · exact hlater u' h hu
      · cases w with
        | nil => exact hlater [] h.symm (by simpa using hvalue.symm)
        | cons e w =>
          obtain ⟨rfl, rfl⟩ := List.cons.inj h
          exact ⟨a, u, w, Nat.le_refl a, by omega, hvalue, by rw [rowText_of_le (Nat.le_refl a)]; rfl,
            rfl⟩
  exact hrow _ a u rfl h

theorem Shows.edited (h : b.Shows s (.fill a c text)) (hak : a ≤ k) (hkc : k < c) :
    ¬b.IsFree k := by
  rcases Nat.eq_or_lt_of_le hak with rfl | hak
  · exact (h (a, text) List.mem_cons_self).2
  · exact (h (k, []) (List.mem_cons_of_mem _
      (List.mem_map.2 ⟨k, List.mem_range'_1.2 ⟨hak, by omega⟩, rfl⟩))).2

theorem Shows.value (h : b.Shows s (.fill a c text)) (hak : a ≤ k) (hkc : k < c) :
    b.values[k]?.getD [] = if k = a then text else [] := by
  by_cases heq : k = a
  · subst heq
    rw [if_pos rfl, (h (k, text) List.mem_cons_self).1]
    rfl
  · rw [if_neg heq, h.emptied (by omega) hkc]
    rfl

theorem Shows.rowText (h : b.Shows s (.fill a c text)) (hlt : a < c) : b.rowText a c = text := by
  rw [rowText_cons hlt, h.value (Nat.le_refl a) hlt, if_pos rfl,
    rowText_eq_nil_iff.2 fun k hak hkc => by rw [h.value (by omega) hkc, if_neg (by omega)],
    List.append_nil]

theorem Holds.value_of_get? {t : Token} (hb : b.Holds s) (hfree : b.IsFree k)
    (ht : s.get? k = some t) : b.values[k]?.getD [] = t.value := by
  rw [hb.value k hfree, TwigStyle.value_of_get? ht]

end EditBuffer

theorem RowEdit.value {rs : Ruleset} {s : TokenStream} {lineBreak : List Char} {b : EditBuffer}
    {a c k : Nat} (h : RowEdit rs s lineBreak b a c k) (hak : a ≤ k) (hkc : k < c) :
    (∃ w, b.values[k]?.getD [] = List.replicate w ' ') ∨
      b.values[k]?.getD [] = lineBreak ∧ b.Shows s (.fill a c lineBreak) := by
  cases h with
  | gap ha hn hw hbreak hbad hshows =>
    rw [hshows.value hak hkc]
    split
    · exact .inl ⟨_, rfl⟩
    · exact .inl ⟨0, rfl⟩
  | trailing hr hend hec hstart hke hshows =>
    rw [hshows.value hstart hke, ite_self]
    exact .inl ⟨0, rfl⟩
  | tabs hr ht hkind hindent hshows =>
    rw [hshows.value (Nat.le_refl k) (Nat.lt_succ_self k), if_pos rfl]
    exact .inl ⟨_, rfl⟩
  | ending heof htext hshows =>
    subst htext
    rw [hshows.value hak hkc]
    by_cases ha : a = 0
    · rw [if_pos ha, ite_self]
      exact .inl ⟨0, rfl⟩
    · rw [if_neg ha] at hshows ⊢
      split
      · exact .inr ⟨rfl, hshows⟩
      · exact .inl ⟨0, rfl⟩

/-! ### Rows of the new template -/

/-- What a pass makes of a row of layout.  Nothing is put before the end of the file only if the token
    there was left alone, or something was put in front of it. -/
inductive NewRow (rs : Ruleset) (s : TokenStream) (lineBreak : List Char) (b : EditBuffer) (a c : Nat)
    (g : List Char) : Prop
  | values (hlt : a < c) (hnew : g = b.rowText a c)
  | opened {w : Nat} (heq : a = c) (hnew : g = List.replicate w ' ')
      (hend : s.kindIn c [.eof] = true → w = 0 ∧ ∀ i, i + 1 = c → ¬b.IsFree i →
        ∃ text, rs.Proposed s lineBreak (.prepend i text))
  | ended (heq : a = c) (heof : s.kindIn c [.eof] = true) (hnew : g = lineBreak)

namespace Renewal

variable {rs : Ruleset} {s s' : TokenStream} {lineBreak : List Char} {b : EditBuffer}
  {ps init lay rest : List Piece}

theorem bodies_eq (hr : Renewal rs s lineBreak b ps s') (hps : ps = init ++ (lay ++ rest))
    (hlay : ∀ m ∈ lay, Lexeme.isLayout m.lexeme = true) :
    (lay.map Piece.body).flatten = b.rowText init.length (init.length + lay.length) := by
  induction lay generalizing init with
  | nil => rw [EditBuffer.rowText_of_le (by simp)]; rfl
  | cons m lay ih =>
    have htold := hr.told init.length m (by rw [hps]; simp)
    obtain ⟨-, hfront, hback⟩ := htold.sound.layout (hlay m List.mem_cons_self)
    have hvalue : b.values[init.length]?.getD [] = m.body := by
      rw [htold.value, Piece.text, hfront, hback]
      simp
    have hps' : ps = (init ++ [m]) ++ (lay ++ rest) := by
      rw [hps]
      simp
    have hrest := ih hps' fun m' hm' => hlay m' (List.mem_cons_of_mem m hm')
    rw [List.map_cons, List.flatten_cons, EditBuffer.rowText_cons (by simp), hvalue, hrest]
    simp [Nat.add_assoc, Nat.add_comm 1]

end Renewal

namespace TokenStream

variable {s : TokenStream} {c i j : Nat} {x y : Token}

theorem Row.layoutText_zero (h : s.Row 0 c) :
    s.layoutText 0 c = (laid s.lexemes).1 ∧
      ∃ y after row, s.get? c = some y ∧ (laid s.lexemes).2 = (y.lexeme, after) :: row := by
  obtain ⟨y, hy, hsolid⟩ := h.right
  have hat := TokenStream.lexeme_of_get? hy
  obtain ⟨hlt, hat⟩ := List.getElem?_eq_some_iff.1 hat
  have hlayout : ∀ l ∈ s.lexemes.take c, Lexeme.isLayout l = true := by
    intro l hl
    obtain ⟨k, hk⟩ := List.getElem?_of_mem hl
    have hkc := (List.getElem?_eq_some_iff.1 hk).1
    rw [List.length_take] at hkc
    rw [List.getElem?_take_of_lt (by omega)] at hk
    obtain ⟨l', hl', hkind⟩ := kindIn_iff_lexeme.1 (h.layout k (Nat.zero_le k) (by omega))
    rw [hk] at hl'
    obtain rfl := Option.some.inj hl'
    exact List.contains_iff_mem.2 hkind
  have hsplit : s.lexemes = s.lexemes.take c ++ y.lexeme :: s.lexemes.drop (c + 1) := by
    rw [← hat, ← List.drop_eq_getElem_cons, List.take_append_drop]
  have hlaid : laid s.lexemes = (spell (s.lexemes.take c),
      (y.lexeme, (laid (s.lexemes.drop (c + 1))).1) :: (laid (s.lexemes.drop (c + 1))).2) := by
    refine (congrArg laid hsplit).trans ?_
    rw [laid_append_of_layout hlayout, laid_cons_solid hsolid, List.append_nil]
  rw [hlaid]
  exact ⟨rfl, y, _, _, hy, rfl⟩

theorem Regular.kindIn_eof_iff (hs : s.Regular) (hn : s.Neighbours i j x y) :
    s.kindIn j [.eof] = true ↔ s.count = (s.before i).length + 2 := by
  have hkind : s.kindIn j [.eof] = true ↔ y.kind = .eof := by
    rw [kindIn_of_get? hn.right]
    simp
  rw [hkind]
  refine ⟨hn.count_of_eof hs, fun hcount => ?_⟩
  apply Classical.byContradiction
  intro hy
  have := hn.lt_count hs hy
  omega

end TokenStream

namespace Passed

variable {rs : Ruleset} {s s' : TokenStream} {lineBreak : List Char} {b : EditBuffer}
  {ps init lay rest : List Piece} {p q : Piece} {n a c : Nat} {x y : Token}
variable (h : Passed rs s lineBreak b) (hr : Renewal rs s lineBreak b ps s')
include h hr

theorem newRow_of_eof (hsite : Renewal.Site s s' b ps n init p [] q rest x y) (hy : y.kind = .eof) :
    NewRow rs s lineBreak b (init.length + 1) (init.length + 1) (p.back ++ q.front) := by
  have hn : s.Neighbours init.length (init.length + 1) x y := hsite.neighbours
  -- Nothing is wanted there.
  have hnone : ∀ side w,
      w ∉ rs.widths s (Spacing.Side.token side init.length (init.length + 1)) side := by
    intro side w hw
    have hwants := Ruleset.mem_wants.2 ⟨side, hw⟩
    rw [Ruleset.wants_of_eof h.regular hn hy] at hwants
    cases hwants
  have hfront : q.front = [] := by
    apply Classical.byContradiction
    intro hne
    obtain ⟨-, w, hw, -⟩ := h.front_of_site hr hsite hne
    exact hnone .before w hw
  rw [hfront, List.append_nil]
  by_cases hback : p.back = []
  · refine .opened (w := 0) rfl hback fun _ => ⟨rfl, ?_⟩
    intro i hi hedited
    obtain rfl : i = init.length := Nat.succ.inj hi
    have htold := hr.told _ p hsite.getElem?_left
    exact ⟨p.front, htold.prepended
      ((htold.edited hsite.adjacent.solidLeft hedited).resolve_right (absurd hback))⟩
  · rcases (h.back_of_site hr hsite hback).2 with ⟨w, hw, -⟩ | ⟨-, hended⟩
    · exact absurd hw (hnone .after w)
    · exact .ended rfl (TokenStream.kindIn_iff.2 ⟨y, hn.right, by simp [hy]⟩) hended

theorem newRow_of_inner (hsite : Renewal.Site s s' b ps n init p [] q rest x y)
    (hy : y.kind ≠ .eof) :
    NewRow rs s lineBreak b (init.length + 1) (init.length + 1) (p.back ++ q.front) := by
  have hspaces : ∀ {g : List Char} {ws : List Nat},
      (g ≠ [] → ∃ w ∈ ws, w ≠ 0 ∧ g = List.replicate w ' ') → ∃ w, g = List.replicate w ' ' := by
    intro g ws hg
    by_cases hnil : g = []
    · exact ⟨0, hnil⟩
    · obtain ⟨w, -, -, hw⟩ := hg hnil
      exact ⟨w, hw⟩
  obtain ⟨v, hv⟩ := hspaces fun hne =>
    (h.back_of_site hr hsite hne).2.resolve_right fun heof => hy heof.1
  obtain ⟨w, hw⟩ := hspaces fun hne => (h.front_of_site hr hsite hne).2
  refine .opened (w := v + w) rfl ?_ fun heof => absurd ?_ hy
  · rw [hv, hw, List.replicate_append_replicate]
  · exact List.mem_singleton.1 (TokenStream.get?_of_kindIn hsite.neighbours.right heof)

theorem newRow_of_site (hsite : Renewal.Site s s' b ps n init p lay q rest x y) :
    NewRow rs s lineBreak b (init.length + 1) (init.length + 1 + lay.length) (s'.gapAt n) := by
  by_cases hlay : lay = []
  · subst hlay
    have hnew : s'.gapAt n = p.back ++ q.front := by
      rw [hsite.new]
      simp
    rw [hnew]
    by_cases hy : y.kind = .eof
    · exact h.newRow_of_eof hr hsite hy
    · exact h.newRow_of_inner hr hsite hy
  · refine .values (by have := List.length_pos_iff.2 hlay; omega) ?_
    have hfront : q.front = [] :=
      Classical.byContradiction fun hne => hlay (h.front_of_site hr hsite hne).1
    have hback : p.back = [] :=
      Classical.byContradiction fun hne => hlay (h.back_of_site hr hsite hne).1
    have hps : ps = (init ++ [p]) ++ (lay ++ q :: rest) := by rw [hsite.split]; simp
    have hbodies := hr.bodies_eq hps hsite.adjacent.layout
    rw [List.length_append, List.length_singleton] at hbodies
    rw [hsite.new, hfront, hback, hbodies, List.nil_append, List.append_nil]

theorem exists_newRow_zero {c' : Nat} (hrow' : s'.Row 0 c') :
    ∃ c, s.Row 0 c ∧ (s.kindIn c [.eof] = true ↔ s'.kindIn c' [.eof] = true) ∧
      NewRow rs s lineBreak b 0 c (s'.layoutText 0 c') := by
  obtain ⟨htext, y', after, row, hy', hlaid⟩ := hrow'.layoutText_zero
  rw [hr.new] at htext hlaid
  cases hcells : (cells ps).2.2 with
  | nil =>
    rw [hcells] at hlaid
    cases hlaid
  | cons d cs =>
    obtain ⟨lay, q, rest, hps, hlay, hq, hd⟩ := exists_of_cells hcells
    have hlexeme : y'.lexeme = q.lexeme := by
      rw [hcells, rowLaid_cons] at hlaid
      rw [← hd]
      exact (Prod.mk.inj (List.cons.inj hlaid).1).1.symm
    have hright := hr.told lay.length q (by rw [hps]; simp)
    have hlayout : ∀ k, k < lay.length → s.kindIn k TokenKind.layout = true := by
      intro k hk
      have htold := hr.told k lay[k] (by rw [hps, List.getElem?_append_left hk]; simp)
      exact TokenStream.kindIn_iff_lexeme.2
        ⟨_, htold.token, List.contains_iff_mem.1 (hlay _ (List.getElem_mem hk))⟩
    obtain ⟨y, hy, hyq⟩ : ∃ y, s.get? lay.length = some y ∧ y.lexeme = q.lexeme := by
      have htoken := hright.token
      rw [TokenStream.lexemes_getElem?] at htoken
      exact Option.map_eq_some_iff.1 htoken
    have hfront : q.front = [] := by
      apply Classical.byContradiction
      intro hne
      obtain ⟨i, x, y, w, hi, hn, -⟩ := (hright.prepended hne).of_prepend h.regular
      exact TokenStream.not_kindIn_layout hn.left hn.solidLeft (List.Subset.refl _)
        (hlayout i (by omega))
    have hnew : s'.layoutText 0 c' = b.rowText 0 lay.length := by
      have hbodies : (lay.map Piece.body).flatten = b.rowText ([] : List Piece).length _ :=
        hr.bodies_eq hps hlay
      rw [htext, hps, cells_append hlay, cells_solid hq, hfront, hbodies]
      simp
    refine ⟨lay.length, ⟨Nat.zero_le _, fun k _ hk => hlayout k hk, ⟨y, hy, ?_⟩, nofun⟩, ?_, ?_⟩
    · rw [hyq]
      exact hq
    · rw [TokenStream.kindIn_of_get? hy, TokenStream.kindIn_of_get? hy']
      have hkind : y.kind = y'.kind := congrArg Prod.fst (hyq.trans hlexeme.symm)
      rw [hkind]
    · by_cases hempty : lay = []
      · subst hempty
        exact .opened (w := 0) rfl hnew fun _ => ⟨rfl, nofun⟩
      · exact .values (List.length_pos_iff.2 hempty) hnew

theorem exists_newRow (hs' : s'.Regular) {a' c' : Nat} (hrow' : s'.Row a' c') :
    ∃ a c, s.Row a c ∧ (a = 0 ↔ a' = 0) ∧
      (s.kindIn c [.eof] = true ↔ s'.kindIn c' [.eof] = true) ∧
      NewRow rs s lineBreak b a c (s'.layoutText a' c') := by
  cases a' with
  | zero =>
    obtain ⟨c, hrow, heof, hnew⟩ := h.exists_newRow_zero hr hrow'
    exact ⟨0, c, hrow, Iff.rfl, heof, hnew⟩
  | succ i' =>
    obtain ⟨x', y', hn'⟩ := hrow'.toNeighbours
    have hcount : s'.count = s.count := congrArg List.length hr.meaningful_eq
    have hlt : (s'.before i').length + 1 < s.count := by
      rw [← hcount, TokenStream.count, hn'.meaningful_eq]
      simp
    obtain ⟨init, p, lay, q, rest, x, y, hsite⟩ := hr.exists_site h.holds hlt
    refine ⟨_, _, hsite.neighbours.toRow, by simp, ?_, ?_⟩
    · rw [h.regular.kindIn_eof_iff hsite.neighbours, hs'.kindIn_eof_iff hn', hsite.number, hcount]
    · have htext : s'.layoutText (i' + 1) c' = s'.gapAt (s'.before i').length := by
        rw [hn'.gapAt_eq, TokenStream.gapText_eq]
        rfl
      rw [htext]
      exact h.newRow_of_site hr hsite

end Passed

end TwigStyle
