import TwigStyle.Proofs.Padding

/-!
# Fixing keeps the lines

A character of the content belongs to a token, and a pass leaves it there.  What stands before it keeps its
line breaks token by token, and it keeps their number as long as no carriage return gets next to a line
feed (`EditBuffer.Made.reflowed`).  `Reflowed` says what holds in any case, and that can be put together
over passes: the text before the character is the same up to spaces and tabs, and it has no more lines.

The exception is real.  A carriage return and a line feed that only blanks keep apart are two line breaks,
and one when the blanks are trimmed (`fixFile_joins_lines`).
-/

namespace TwigStyle

/-! ### What becomes of a text -/

/-- Two beginnings of a text that differ in spaces and tabs.  Lines may have been joined, but not unless
    blanks were trimmed. -/
structure Reflowed (trims : Bool) (u u' : List Char) : Prop where
  unspaced : unspaced u' = unspaced u
  le : lineBreakCount u' ≤ lineBreakCount u
  eq : trims = false → lineBreakCount u' = lineBreakCount u

namespace Reflowed

variable {trims : Bool} {u u₁ u₂ : List Char}

theorem refl (trims : Bool) (u : List Char) : Reflowed trims u u := ⟨rfl, Nat.le_refl _, fun _ => rfl⟩

theorem trans (h : Reflowed trims u u₁) (h' : Reflowed trims u₁ u₂) : Reflowed trims u u₂ where
  unspaced := h'.unspaced.trans h.unspaced
  le := Nat.le_trans h'.le h.le
  eq htrims := (h'.eq htrims).trans (h.eq htrims)

theorem lines (h : Reflowed trims u u₁) (hparted : trims = true → parted u = false) :
    lineBreakCount u₁ = lineBreakCount u := by
  cases trims with
  | false => exact h.eq rfl
  | true =>
    apply Nat.le_antisymm h.le
    calc
      lineBreakCount u = lineBreakCount (TwigStyle.unspaced u) :=
        (lineBreakCount_unspaced (hparted rfl)).symm
      _ = lineBreakCount (TwigStyle.unspaced u₁) := by rw [h.unspaced]
      _ ≤ lineBreakCount u₁ := lineBreakCount_unspaced_le u₁

end Reflowed

section Lexemes

variable {ls : List Lexeme} {l x y : Lexeme} {u v rest : List Char} {c : Char} {k m : Nat}

theorem exists_of_spell (h : spell ls = u ++ c :: v) :
    ∃ m l a b, ls[m]? = some l ∧ l.2 = a ++ c :: b ∧ u = spell (ls.take m) ++ a := by
  induction ls generalizing u with
  | nil => simp at h
  | cons l ls ih =>
    rw [spell_cons] at h
    rcases List.append_eq_append_iff.1 h with ⟨w, rfl, hw⟩ | ⟨w, hl, hw⟩
    · obtain ⟨m, l', a, b, hm, hl', rfl⟩ := ih hw
      exact ⟨m + 1, l', a, b, hm, hl', by simp⟩
    · cases w with
      | nil =>
        obtain ⟨m, l', a, b, hm, hl', hnil⟩ := ih (u := []) hw.symm
        refine ⟨m + 1, l', a, b, hm, hl', ?_⟩
        rw [List.take_succ_cons, spell_cons, List.append_assoc, ← hnil, hl]
        simp
      | cons d w =>
        obtain ⟨rfl, -⟩ := List.cons.inj hw
        exact ⟨0, l, u, w, rfl, hl, rfl⟩

theorem spell_of_getElem? (h : ls[m]? = some l) :
    spell ls = spell (ls.take m) ++ (l.2 ++ spell (ls.drop (m + 1))) := by
  obtain ⟨hlt, rfl⟩ := List.getElem?_eq_some_iff.1 h
  rw [← spell_cons, ← List.drop_eq_getElem_cons hlt, ← spell_append, List.take_append_drop]

theorem exists_of_head?_spell (h : (spell ls).head? = some c) :
    ∃ (j : Nat) (l : Lexeme), ls[j]? = some l ∧ l.2.head? = some c ∧
      ∀ k < j, ∀ l', ls[k]? = some l' → l'.2 = [] := by
  induction ls with
  | nil => cases h
  | cons l ls ih =>
    cases hl : l.2 with
    | cons d w =>
      rw [spell_cons, hl] at h
      exact ⟨0, l, rfl, by rw [hl]; exact h, fun k hk => absurd hk (Nat.not_lt_zero k)⟩
    | nil =>
      rw [spell_cons, hl, List.nil_append] at h
      obtain ⟨j, l', hj, hhead, hempty⟩ := ih h
      refine ⟨j + 1, l', hj, hhead, ?_⟩
      intro k hk l'' hl''
      cases k with
      | zero =>
        obtain rfl := Option.some.inj hl''
        exact hl
      | succ k => exact hempty k (Nat.lt_of_succ_lt_succ hk) l'' hl''

theorem unsplit_of_getElem? (h : ∀ i l, ls[i]? = some l → l.2.getLast? = some '\r' →
    (spell (ls.drop (i + 1)) ++ rest).head? ≠ some '\n') : Unsplit ls rest := by
  induction ls with
  | nil => exact trivial
  | cons l ls ih => exact ⟨h 0 l rfl, ih fun i l' hl' => h (i + 1) l' hl'⟩

theorem Unsplit.head? (h : Unsplit ls rest) (hx : ls[k]? = some x) (hy : ls[k + 1]? = some y)
    (hlast : x.2.getLast? = some '\r') : y.2.head? ≠ some '\n' := by
  induction ls generalizing k with
  | nil => cases hx
  | cons l ls ih =>
    cases k with
    | zero =>
      obtain rfl := Option.some.inj hx
      cases ls with
      | nil => cases hy
      | cons l' ls =>
        obtain rfl := Option.some.inj hy
        intro hhead
        refine h.1 hlast ?_
        rw [spell_cons, List.append_assoc, List.head?_append, hhead]
        rfl
    | succ k => exact ih h.2 hx hy

end Lexemes

namespace EditBuffer

variable {b : EditBuffer} {s : TokenStream} {P : Change → Prop} {rs : Ruleset}
  {lineBreak : List Char} {t : Token} {i m : Nat} {ls : List Lexeme} {c : Char}

theorem Made.exists_value (h : b.Made s P) (hb : b.Holds s) (ht : s.get? i = some t) :
    ∃ w, b.values[i]? = some w ∧ (w = t.value ∨ ∃ ch, P ch ∧ (i, w) ∈ ch.edits s) := by
  by_cases hfree : b.IsFree i
  · refine ⟨t.value, ?_, .inl rfl⟩
    have hget : s.tokens[i]? = some t := ht
    rw [hb.value i hfree, TokenStream.values, Array.getElem?_map, hget]
    rfl
  · obtain ⟨ch, hch, hshows, hmem⟩ := h i (TokenStream.get?_lt ht) hfree
    obtain ⟨⟨j, w⟩, he, rfl⟩ := List.mem_map.1 hmem
    exact ⟨w, (hshows _ he).1, .inr ⟨ch, hch, he⟩⟩

theorem Made.padded (h : b.Made s (rs.Proposed s lineBreak)) (hb : b.Holds s) (hended : s.Ended)
    (ht : s.get? i = some t) : ∃ w, b.values[i]? = some w ∧ Padded s i t.value w := by
  obtain ⟨w, hw, rfl | ⟨ch, ⟨r, -, hch⟩, he⟩⟩ := h.exists_value hb ht
  · exact ⟨_, hw, .before 0⟩
  · exact ⟨w, hw, hch.padded hended he ht⟩

/-- The values of a buffer, as lexemes. -/
def pieces (b : EditBuffer) : List Lexeme := b.values.toList.map fun w => (.text, w)

theorem pieces_getElem? (b : EditBuffer) (i : Nat) :
    b.pieces[i]? = (b.values[i]?).map fun w => (TokenKind.text, w) := by
  rw [pieces, List.getElem?_map, Array.getElem?_toList]

theorem spell_pieces (b : EditBuffer) : spell b.pieces = b.text := by
  rw [spell, pieces, List.map_map]
  exact congrArg List.flatten (List.map_id _)

section Untrimmed

variable (h : b.Made s (rs.Proposed s lineBreak)) (hb : b.Holds s) (hs : s.Regular)
  (hm : s.kindIn m TokenKind.layout = false) (hsize : m + 1 < s.size)

include hs hsize in
theorem value_ne_nil (ht : s.get? i = some t) (him : i ≤ m) : t.value ≠ [] := by
  refine hs.value t.lexeme (TokenStream.lexeme_mem ht) ?_
  intro heof
  have := (hs.ended i).1 (TokenStream.kindIn_iff.2 ⟨t, ht, List.mem_singleton.2 heof⟩)
  omega

include h hb hs hsize in
theorem Made.ne_nil_of_solid (him : i ≤ m) (hi : s.kindIn i TokenKind.layout = false) :
    b.values[i]? ≠ some [] := by
  intro hnil
  obtain ⟨t, ht⟩ := TokenStream.exists_get? (s := s) (i := i) (by omega)
  obtain ⟨w, hw, hpadded⟩ := h.padded hb hs.ended ht
  obtain ⟨n, text, rfl⟩ := hpadded.around hi
  rw [hnil] at hw
  simp [value_ne_nil hs hsize ht him] at hw

include h hb hs hm hsize in
/-- Without trimming something is left between a carriage return and a line feed. -/
theorem Made.exists_ne_nil (hfirm : ∀ l ∈ s.lexemes, l.Firm)
    (htrims : ∀ r ∈ rs.rules, r.trims = false) {q : Nat} {x y : Token} (hx : s.get? i = some x)
    (hy : s.get? q = some y) (hiq : i < q) (hqm : q ≤ m) (hlast : x.value.getLast? = some '\r')
    (hhead : y.value.head? = some '\n') : ∃ j, i < j ∧ j < q ∧ b.values[j]? ≠ some [] := by
  -- Neither of the two tokens is blank.
  have hblankx : s.kindIn i Layout.blanks = false := by
    rw [Bool.eq_false_iff]
    intro hblank
    exact absurd (hs.genuine.blank hx hblank _ (List.mem_of_getLast? hlast)) (by decide)
  have hblanky : s.kindIn q Layout.blanks = false := by
    rw [Bool.eq_false_iff]
    intro hblank
    exact absurd (hs.genuine.blank hy hblank _ (List.mem_of_mem_head? hhead)) (by decide)
  have hne : i + 1 ≠ q := by
    rintro rfl
    have hx' := TokenStream.lexeme_of_get? hx
    have hy' := TokenStream.lexeme_of_get? hy
    exact hs.unsplit.head? hx' hy' hlast hhead
  by_cases hnext : b.values[i + 1]? = some []
  · -- The token behind the first one is emptied by a change of the gap that it stands in.
    obtain ⟨t, ht⟩ := TokenStream.exists_get? (s := s) (i := i + 1) (by omega)
    have hvalue := value_ne_nil hs hsize ht (by omega)
    obtain ⟨w, hw, hcase⟩ := h.exists_value hb ht
    obtain rfl : [] = w := Option.some.inj (hnext.symm.trans hw)
    rcases hcase with hnil | ⟨ch, ⟨r, hr, hch⟩, he⟩
    · exact absurd hnil.symm hvalue
    · obtain ⟨k, l, x', y', hn, hki, hil, hblanks, hedge⟩ :=
        hch.firm_of_empty hs hfirm (htrims r hr) he rfl ht hvalue (by change i + 1 < m; omega) hsize hm
      change k < i + 1 at hki
      change i + 1 < l at hil
      have hki' : k = i := by
        apply Classical.byContradiction
        intro hne'
        rw [hblanks i (by omega) (by omega)] at hblankx
        cases hblankx
      subst hki'
      obtain rfl : x = x' := Option.some.inj (hx.symm.trans hn.left)
      have hql : ¬q < l := by
        intro hlt
        rw [hblanks q hiq hlt] at hblanky
        cases hblanky
      have hlq : l ≠ q := by
        rintro rfl
        obtain rfl : y = y' := Option.some.inj (hy.symm.trans hn.right)
        rcases hedge with hedge | hedge
        · exact hedge hlast
        · exact hedge hhead
      have hsolid : s.kindIn l TokenKind.layout = false := by
        rw [TokenStream.kindIn_of_get? hn.right]
        exact hn.solidRight
      exact ⟨l, by omega, by omega, h.ne_nil_of_solid hb hs hsize (by omega) hsolid⟩
  · exact ⟨i + 1, by omega, by omega, hnext⟩

include h hb hs hm hsize in
theorem Made.unsplit (hfirm : ∀ l ∈ s.lexemes, l.Firm) (htrims : ∀ r ∈ rs.rules, r.trims = false) :
    Unsplit (b.pieces.take m) (spell (b.pieces.drop m)) := by
  apply unsplit_of_getElem?
  intro i l hl hlast hhead
  have hlength := (List.getElem?_eq_some_iff.1 hl).1
  rw [List.getElem?_take] at hl
  split at hl
  · rename_i him
    have hdrop : (b.pieces.take m).drop (i + 1) ++ b.pieces.drop m = b.pieces.drop (i + 1) := by
      rw [← List.drop_append_of_le_length hlength, List.take_append_drop]
    rw [← spell_append, hdrop] at hhead
    obtain ⟨j, l', hj, hhead, hempty⟩ := exists_of_head?_spell hhead
    rw [List.getElem?_drop] at hj
    have hbetween : ∀ k, i < k → k < i + 1 + j → ∀ w, b.values[k]? = some w → w = [] := by
      intro k hik hkj w hw
      refine hempty (k - (i + 1)) (by omega) (.text, w) ?_
      rw [List.getElem?_drop, Nat.add_sub_cancel' hik, pieces_getElem?, hw]
      rfl
    obtain ⟨x, hx⟩ := TokenStream.exists_get? (s := s) (i := i) (by omega)
    obtain ⟨w, hw, hpadded⟩ := h.padded hb hs.ended hx
    rw [pieces_getElem?, hw] at hl
    cases hl
    have hjm : i + 1 + j ≤ m := by
      apply Nat.le_of_not_lt
      intro hlt
      obtain ⟨y, hy⟩ := TokenStream.exists_get? (s := s) (i := m) (by omega)
      obtain ⟨w', hw', -⟩ := h.padded hb hs.ended hy
      refine h.ne_nil_of_solid hb hs hsize (Nat.le_refl m) hm ?_
      rw [hw', hbetween m him hlt w' hw']
    obtain ⟨y, hy⟩ := TokenStream.exists_get? (s := s) (i := i + 1 + j) (by omega)
    obtain ⟨w', hw', hpadded'⟩ := h.padded hb hs.ended hy
    rw [pieces_getElem?, hw'] at hj
    cases hj
    obtain ⟨k, hik, hkj, hne⟩ := h.exists_ne_nil hb hs hm hsize hfirm htrims hx hy (by omega) hjm
      (hpadded.getLast? him hsize hm hlast)
      (hpadded'.head? hjm hsize hm (value_ne_nil hs hsize hy hjm) hhead)
    obtain ⟨z, hz⟩ := TokenStream.exists_get? (s := s) (i := k) (by omega)
    obtain ⟨w'', hw'', -⟩ := h.padded hb hs.ended hz
    exact hne (by rw [hw'', hbetween k hik hkj w'' hw''])
  · cases hl

end Untrimmed

theorem map_pieces_take {β : Type} {f : List Char → β} (hsize : m < s.size)
    (hf : ∀ i < m, ∀ t, s.get? i = some t → ∃ w, b.values[i]? = some w ∧ f w = f t.value) :
    (s.lexemes.take m).map (fun l => f l.2) = (b.pieces.take m).map fun l => f l.2 := by
  apply List.ext_getElem?
  intro i
  rw [List.getElem?_map, List.getElem?_map, List.getElem?_take, List.getElem?_take]
  split
  · rename_i him
    obtain ⟨t, ht⟩ := TokenStream.exists_get? (s := s) (i := i) (by omega)
    obtain ⟨w, hw, hfw⟩ := hf i him t ht
    rw [s.lexemes_getElem?, ht, pieces_getElem?, hw]
    exact congrArg some hfw.symm
  · rfl

theorem succ_lt_size {l : Lexeme} (hls : s.lexemes = ls ++ [(.eof, [])])
    (hl : s.lexemes[m]? = some l) (hne : l.2 ≠ []) : m + 1 < s.size := by
  have hlength := congrArg List.length hls
  have hlt := (List.getElem?_eq_some_iff.1 hl).1
  rw [hls, List.length_append, List.length_singleton] at hlt
  have hlast : m ≠ ls.length := by
    rintro rfl
    rw [hls, List.getElem?_concat_length] at hl
    obtain rfl := Option.some.inj hl
    exact hne rfl
  simp only [TokenStream.lexemes, List.length_map, Array.length_toList, List.length_append,
    List.length_singleton] at hlength
  unfold TokenStream.size
  omega

theorem layout_eq_false_of_mem (hs : s.Regular) (ht : s.get? m = some t) (hmem : c ∈ t.value)
    (hc : Text.isLayout c = false) : s.kindIn m TokenKind.layout = false := by
  rw [Bool.eq_false_iff]
  intro hlayout
  have hgap := hs.genuine.gap (List.Subset.refl _) hlayout
  rw [value_of_get? ht] at hgap
  rw [hgap c hmem] at hc
  cases hc

theorem Made.reflowed (h : b.Made s (rs.Proposed s lineBreak)) (hb : b.Holds s) (hs : s.Regular)
    (hfirm : ∀ l ∈ s.lexemes, l.Firm) (hls : s.lexemes = ls ++ [(.eof, [])]) {u v : List Char}
    (hsource : s.source = u ++ c :: v) (hc : Text.isLayout c = false) :
    ∃ u' v', b.text = u' ++ c :: v' ∧ Reflowed (rs.rules.any Rule.trims) u u' := by
  rw [TokenStream.source_eq] at hsource
  obtain ⟨m, l, a, d, hl, hvalue, rfl⟩ := exists_of_spell hsource
  have hmem : c ∈ l.2 := by simp [hvalue]
  have hsize := succ_lt_size hls hl (List.ne_nil_of_mem hmem)
  have hpiece := hl
  rw [s.lexemes_getElem?] at hl
  obtain ⟨t, ht, rfl⟩ := Option.map_eq_some_iff.1 hl
  have hm := layout_eq_false_of_mem hs ht hmem hc
  obtain ⟨w, hw, hpadded⟩ := h.padded hb hs.ended ht
  obtain ⟨n, text, rfl⟩ := hpadded.around hm
  have hnew : b.pieces[m]? = some (.text, List.replicate n ' ' ++ t.value ++ text) := by
    rw [pieces_getElem?, hw]
    rfl
  have htext : b.text = spell (b.pieces.take m) ++ (List.replicate n ' ' ++ a) ++
      c :: (d ++ (text ++ spell (b.pieces.drop (m + 1)))) := by
    rw [← spell_pieces, spell_of_getElem? hnew, show t.value = a ++ c :: d from hvalue]
    simp
  refine ⟨_, _, htext, ?_⟩
  -- Token by token the lines are the same; so is what is left of the token with the character.
  have hlines : ∀ i < m, ∀ x, s.get? i = some x → ∃ w, b.values[i]? = some w ∧
      unspaced w = unspaced x.value ∧ lineBreakCount w = lineBreakCount x.value := by
    intro i him x hx
    obtain ⟨w, hw, hpadded⟩ := h.padded hb hs.ended hx
    exact ⟨w, hw, hpadded.lines hs.genuine hx him hsize hm⟩
  have hmapLines := map_pieces_take (b := b) (f := lineBreakCount) (Nat.lt_of_succ_lt hsize)
    fun i him x hx => (hlines i him x hx).imp fun w hw => ⟨hw.1, hw.2.2⟩
  have hmapUnspaced := map_pieces_take (b := b) (f := unspaced) (Nat.lt_of_succ_lt hsize)
    fun i him x hx => (hlines i him x hx).imp fun w hw => ⟨hw.1, hw.2.1⟩
  have hblank := isSpacing_of_mem_replicate (n := n)
  have ha : lineBreakCount (List.replicate n ' ' ++ a) = lineBreakCount a := by
    rw [lineBreakCount_append, lineBreakCount_of_blank hblank, Nat.zero_add]
    exact fun hlast => absurd hlast
      (getLast?_ne_of_forall (p := (isSpacing · = true)) hblank (by decide))
  -- The old tokens cut no line break, so their lines add up; the new ones may, unless nothing is trimmed.
  have hold : Unsplit (s.lexemes.take m) (a ++ (c :: d ++ spell (s.lexemes.drop (m + 1)))) := by
    have hunsplit := hs.unsplit
    obtain ⟨hlt, heq⟩ := List.getElem?_eq_some_iff.1 hpiece
    rw [← List.take_append_drop m s.lexemes, unsplit_append, List.drop_eq_getElem_cons hlt, heq,
      spell_cons, hvalue, List.append_nil, List.append_assoc] at hunsplit
    exact hunsplit.1
  refine ⟨?_, lineBreakCount_spell_le hmapLines hold ha, ?_⟩
  · rw [unspaced_append, unspaced_append, unspaced_append, unspaced_spell, unspaced_spell,
      hmapUnspaced, unspaced_of_blank hblank, List.nil_append]
  · intro htrims
    have htrims' : ∀ r ∈ rs.rules, r.trims = false := by simpa using htrims
    have hunsplit := h.unsplit hb hs hm hsize hfirm htrims'
    obtain ⟨hlt, heq⟩ := List.getElem?_eq_some_iff.1 hnew
    rw [List.drop_eq_getElem_cons hlt, heq, spell_cons,
      show t.value = a ++ c :: d from hvalue] at hunsplit
    have hcut : Unsplit (b.pieces.take m)
        (List.replicate n ' ' ++ a ++ (c :: d ++ text ++ spell (b.pieces.drop (m + 1)))) := by
      simpa using hunsplit
    exact lineBreakCount_spell hmapLines hold hcut ha

end EditBuffer

/-! ### What becomes of a file -/

/-- Does a rule that applies to the file trim? -/
def Ruleset.trims (rs : Ruleset) (file : SourceFile) : Bool := (rs.applying file).rules.any Rule.trims

theorem Ruleset.applying_content (rs : Ruleset) (file : SourceFile) (content : List Char) :
    rs.applying { file with content } = rs.applying file := by
  have happlies : ∀ r : Rule, r.appliesTo { file with content } = r.appliesTo file := by
    intro r
    induction r with
    | onPaths inner globs ih => rw [Rule.appliesTo, Rule.appliesTo, ih]
    | _ => rfl
  simp only [applying, happlies]

namespace Fixer

variable {rs : Ruleset} {file : SourceFile} {fx fx' : Fixer} {out source u v : List Char} {c : Char}

theorem reflowed_passes (hrs : ∀ r ∈ rs.rules, r.isBuiltIn = true) {remaining : Nat}
    (h : passes rs file remaining source fx = (.ok out, fx')) (hsource : source = u ++ c :: v)
    (hc : Text.isLayout c = false) :
    ∃ u' v', out = u' ++ c :: v' ∧ Reflowed (rs.trims file) u u' := by
  -- What stands before the character changes from pass to pass, so the induction is over all of them.
  induction remaining generalizing source u v fx with
  | zero => cases h
  | succ remaining ih =>
    simp only [passes] at h
    split at h
    · cases h
    · rename_i t ht
      split at h
      · cases h
        exact ⟨u, v, hsource, .refl _ u⟩
      · split at h
        · exact ih h hsource
        · obtain ⟨ls, hls, hspell, -⟩ := tokenize_lexemes ht
          have hstream : t.stream.source = u ++ c :: v := by
            rw [← hsource, TokenStream.source_eq, hls, spell_append, hspell]
            simp
          obtain ⟨hmade, hholds⟩ := made_pass_applying fx hrs { file with content := source } t
          rw [Ruleset.applying_content] at hmade
          obtain ⟨u₁, v₁, htext, hreflowed⟩ :=
            hmade.reflowed hholds (tokenize_regular ht) (tokenize_firm ht) hls hstream hc
          obtain ⟨u', v', hout, hreflowed'⟩ := ih h htext
          exact ⟨u', v', hout, hreflowed.trans hreflowed'⟩

end Fixer

/-- **Fixing keeps the content on its lines.** Every character of the content is there afterwards, behind
    the same content.  Its line number does not grow, and it stays the same unless blanks are trimmed and
    some of them are all that parts a carriage return from a line feed before it. -/
theorem fixFile_keeps_lines {fx fx' : Fixer} {rs : Ruleset} {file : SourceFile}
    {out u v : List Char} {c : Char} (hrs : ∀ r ∈ rs.rules, r.isBuiltIn = true)
    (h : fx.fixFile rs file = (.ok out, fx')) (hsource : file.content = u ++ c :: v)
    (hc : Text.isLayout c = false) :
    ∃ u' v', out = u' ++ c :: v' ∧ content u' = content u ∧
      (Position.start.after u').line ≤ (Position.start.after u).line ∧
      ((rs.trims file = true → parted u = false) →
        (Position.start.after u').line = (Position.start.after u).line) := by
  obtain ⟨u', v', hout, hreflowed⟩ := Fixer.reflowed_passes hrs h hsource hc
  refine ⟨u', v', hout, ?_, ?_, ?_⟩
  · rw [← content_unspaced u', hreflowed.unspaced, content_unspaced]
  · rw [Position.start_after, Position.start_after]
    exact Nat.add_le_add_left hreflowed.le 1
  · intro hparted
    rw [Position.start_after, Position.start_after]
    exact congrArg (1 + ·) (hreflowed.lines hparted)

/-- Blanks at the end of a line, an empty line, and a tab: the last letter stays on the third line. -/
theorem fixFile_keeps_lines_tab :
    (Fixer.fixFile ⟨OperatorTable.default, {}, [], #[]⟩ ⟨Standard.full.rules⟩ (.alone ⟨"a.twig"⟩
        "\x7b\x7ba\x7d\x7d \r\n\r\tb".toList)).1.toOption =
      some "\x7b\x7b a \x7d\x7d\r\n\r    b\r\n".toList ∧
    parted "\x7b\x7ba\x7d\x7d \r\n\r\t".toList = false ∧
    ∃ u' v', "\x7b\x7b a \x7d\x7d\r\n\r    b\r\n".toList = u' ++ 'b' :: v' ∧
      content u' = "\x7b\x7ba\x7d\x7d".toList ∧ (Position.start.after u').line = 3 := by
  have hbuiltIn : ∀ r ∈ Standard.full.rules, r.isBuiltIn = true := by decide
  have hok : (Fixer.fixFile ⟨OperatorTable.default, {}, [], #[]⟩ ⟨Standard.full.rules⟩
      (.alone ⟨"a.twig"⟩ "\x7b\x7ba\x7d\x7d \r\n\r\tb".toList)).1.toOption =
        some "\x7b\x7b a \x7d\x7d\r\n\r    b\r\n".toList := by decide +kernel
  have hparted : parted "\x7b\x7ba\x7d\x7d \r\n\r\t".toList = false := by decide +kernel
  refine ⟨hok, hparted, ?_⟩
  obtain ⟨u', v', hout, hcontent, -, hline⟩ := fixFile_keeps_lines
    (u := "\x7b\x7ba\x7d\x7d \r\n\r\t".toList) (v := []) (c := 'b') hbuiltIn
    (Prod.ext (eq_ok_of_toOption hok) rfl) (by decide +kernel) rfl
  refine ⟨u', v', hout, ?_, ?_⟩
  · rw [hcontent]
    decide +kernel
  · rw [hline fun _ => hparted]
    decide +kernel

/-- Once the space between them is gone, a carriage return and a line feed are one line break, and what
    was on the third line is on the second. -/
theorem fixFile_joins_lines :
    (Fixer.fixFile ⟨OperatorTable.default, {}, [], #[]⟩ ⟨Standard.full.rules⟩ (.alone ⟨"a.twig"⟩
        "a\r \nb\n".toList)).1.toOption = some "a\r\nb\n".toList ∧
      parted "a\r \n".toList = true ∧
      (Position.start.after "a\r \n".toList).line = 3 ∧
      (Position.start.after "a\r\n".toList).line = 2 := by
  decide +kernel

end TwigStyle
