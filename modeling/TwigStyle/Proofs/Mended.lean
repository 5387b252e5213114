import TwigStyle.Proofs.Outcome
import TwigStyle.Proofs.Pieces
import TwigStyle.Proofs.Wanted

/-!
# What a pass makes of a template

Each change that a rule proposes is about layout, or puts layout next to a token (`Proposes.edit`).
It leaves line breaks alone, apart from those at the end of the file (`Proposes.layout_after`), and it
empties the gap between two tokens only if one of the two wants no space there (`Proposes.closes`).

So the text that a pass leaves behind is a row of cells in which every gap has changed for a reason:
`exists_row_of_made`.
-/

namespace TwigStyle

/-! ### Places in a stream -/

namespace TokenStream

variable {s : TokenStream} {kinds : List TokenKind} {i j k : Nat} {t x y : Token}

/-- The last token is the end of the file, and no other one is. -/
def Ended (s : TokenStream) : Prop := ∀ k, s.kindIn k [.eof] = true ↔ k + 1 = s.size

theorem kindIn_iff_lexeme : s.kindIn k kinds = true ↔ ∃ l, s.lexemes[k]? = some l ∧ l.1 ∈ kinds := by
  rw [kindIn_iff]
  constructor
  · rintro ⟨t, ht, hkind⟩
    exact ⟨t.lexeme, by rw [lexemes_getElem?, ht]; rfl, hkind⟩
  · rintro ⟨l, hl, hkind⟩
    rw [lexemes_getElem?] at hl
    obtain ⟨t, ht, rfl⟩ := Option.map_eq_some_iff.1 hl
    exact ⟨t, ht, hkind⟩

theorem ended_of_lexemes {ls : List Lexeme} (h : s.lexemes = ls ++ [(.eof, [])])
    (hsolid : Solid ls) : s.Ended := by
  have hsize : s.size = ls.length + 1 := by
    have hlength := congrArg List.length h
    simpa [lexemes, size] using hlength
  intro k
  rw [kindIn_iff_lexeme, h, hsize]
  constructor
  · rintro ⟨l, hl, hkind⟩
    rcases Nat.lt_or_ge k ls.length with hlt | hge
    · rw [List.getElem?_append_left hlt] at hl
      exact absurd (List.mem_singleton.1 hkind) (hsolid l (List.mem_of_getElem? hl)).1
    · have := (List.getElem?_eq_some_iff.1 hl).1
      simp only [List.length_append, List.length_singleton] at this
      omega
  · intro heq
    obtain rfl : k = ls.length := by omega
    exact ⟨_, List.getElem?_concat_length, List.mem_singleton.2 rfl⟩

theorem isLayout_of_kindIn (ht : s.get? k = some t) (hkinds : kinds ⊆ TokenKind.layout)
    (h : s.kindIn k kinds = true) : Lexeme.isLayout t.lexeme = true := by
  rw [kindIn_of_get? ht] at h
  exact List.contains_iff_mem.2 (hkinds (List.contains_iff_mem.1 h))

/-- Two tokens with nothing but layout between them. -/
structure Neighbours (s : TokenStream) (i j : Nat) (x y : Token) : Prop where
  lt : i < j
  left : s.get? i = some x
  right : s.get? j = some y
  solidLeft : Lexeme.isLayout x.lexeme = false
  solidRight : Lexeme.isLayout y.lexeme = false
  between : ∀ k, i < k → k < j → s.kindIn k TokenKind.layout = true

theorem not_kindIn_layout (ht : s.get? k = some t) (hsolid : Lexeme.isLayout t.lexeme = false)
    (hkinds : kinds ⊆ TokenKind.layout) : ¬s.kindIn k kinds = true := by
  intro h
  rw [isLayout_of_kindIn ht hkinds h] at hsolid
  cases hsolid

theorem Neighbours.row (h : s.Neighbours i j x y) (hkinds : kinds ⊆ TokenKind.layout)
    {start stop : Nat} (hrow : ∀ l, start ≤ l → l < stop → s.kindIn l kinds = true)
    (hik : i < k) (hkj : k < j) (hstart : start ≤ k) (hstop : k < stop) : i < start ∧ stop ≤ j := by
  constructor
  · apply Nat.lt_of_not_le
    intro hle
    exact not_kindIn_layout h.left h.solidLeft hkinds (hrow i hle (by omega))
  · apply Nat.le_of_not_lt
    intro hlt
    exact not_kindIn_layout h.right h.solidRight hkinds (hrow j (by omega) hlt)

theorem Neighbours.eq_or_eq (h : s.Neighbours i j x y) (ht : s.get? k = some t)
    (hsolid : Lexeme.isLayout t.lexeme = false) (hik : i ≤ k) (hkj : k ≤ j) : k = i ∨ k = j := by
  apply Classical.byContradiction
  intro hne
  exact not_kindIn_layout ht hsolid (List.Subset.refl _) (h.between k (by omega) (by omega))

end TokenStream

/-! ### Edits of a change -/

section Edits

variable {s : TokenStream} {lineBreak : List Char} {r : Rule} {ch : Change} {cl : Closing}
  {e : Nat × List Char} {t x y : Token} {i j start stop : Nat} {text : List Char}

/-- The kinds of line breaks. -/
def TokenKind.breaks : List TokenKind := [.lineBreak, .commentLineBreak]

theorem Change.of_mem_fill (he : e ∈ (fill start stop text).edits s) (hlt : start < stop) :
    start ≤ e.1 ∧ e.1 < stop ∧ (e.2 = text ∨ e.2 = []) ∧ (e.1 = start → e.2 = text) := by
  simp only [edits, List.mem_cons, List.mem_map, List.mem_range'_1] at he
  rcases he with rfl | ⟨l, hl, rfl⟩
  · exact ⟨Nat.le_refl _, hlt, .inl rfl, fun _ => rfl⟩
  · exact ⟨by omega, by omega, .inr rfl, fun h => by omega⟩

/-- What may become of the value of a token that is no layout. -/
def Grown (s : TokenStream) (i : Nat) (x : Lexeme) (v : List Char) : Prop :=
  ∃ text, IsGap text ∧
    (v = x.2 ++ text ∧ (text ≠ [] → opensAfter x = true ∨ s.kindIn (i + 1) [.eof] = true) ∨
      v = text ++ x.2 ∧ (text ≠ [] → opensBefore x = true))

theorem value_of_get? (ht : s.get? i = some t) : s.values[i]?.getD [] = t.value := by
  have hget : s.tokens[i]? = some t := ht
  simp [TokenStream.values, hget]

theorem replicate_ne_nil {w : Nat} (h : List.replicate w ' ' ≠ []) : w ≠ 0 := by
  rintro rfl
  exact h rfl

theorem Change.fill_edit {kinds : List TokenKind} (hlt : start < stop)
    (hkinds : kinds ⊆ TokenKind.layout)
    (hrow : ∀ l, start ≤ l → l < stop → s.kindIn l kinds = true) (htext : IsGap text)
    (he : e ∈ (fill start stop text).edits s) (ht : s.get? e.1 = some t) :
    (Lexeme.isLayout t.lexeme = true → IsGap e.2) ∧
      (Lexeme.isLayout t.lexeme = false → Grown s e.1 t.lexeme e.2) := by
  obtain ⟨hle, hlt', hvalue, -⟩ := of_mem_fill he hlt
  refine ⟨fun _ => ?_, fun hsolid =>
    absurd (hrow e.1 hle hlt') (TokenStream.not_kindIn_layout ht hsolid hkinds)⟩
  rcases hvalue with h | h
  · rwa [h]
  · rw [h]
    exact isGap_nil

/-- What a proposed change does to a token. -/
theorem Proposes.edit (hcl : cl.Covers r) (hs : s.Genuine) (hbreak : IsGap lineBreak)
    (h : Proposes s lineBreak r ch) (he : e ∈ ch.edits s) (ht : s.get? e.1 = some t) :
    (Lexeme.isLayout t.lexeme = true → IsGap e.2) ∧
      (Lexeme.isLayout t.lexeme = false → Grown s e.1 t.lexeme e.2) := by
  cases h.shape with
  | gap _ _ _ _ hlt hrow => exact Change.fill_edit hlt (by decide) hrow (isGap_replicate _) he ht
  | @before sp i wanted hsp _ hwanted =>
    rw [List.mem_singleton.1 he] at ht ⊢
    rw [Spacing.solid_of_wanted hsp ht hwanted, value_of_get? ht]
    exact ⟨nofun, fun _ => ⟨_, isGap_replicate wanted, .inr ⟨rfl, fun hne =>
      (Closing.wanted hcl.base hsp ht hwanted).2 (replicate_ne_nil hne)⟩⟩⟩
  | @after sp i wanted hsp _ hwanted =>
    rw [List.mem_singleton.1 he] at ht ⊢
    rw [Spacing.solid_of_wanted hsp ht hwanted, value_of_get? ht]
    exact ⟨nofun, fun _ => ⟨_, isGap_replicate wanted, .inl ⟨rfl, fun hne =>
      .inl ((Closing.wanted hcl.base hsp ht hwanted).2 (replicate_ne_nil hne))⟩⟩⟩
  | trailing _ _ hlt hrow => exact Change.fill_edit hlt (by decide) hrow isGap_nil he ht
  | blankLines _ hlt hrow htext =>
    refine Change.fill_edit hlt (by decide) hrow ?_ he ht
    rcases htext with rfl | rfl
    · exact isGap_nil
    · exact hbreak
  | lineEnd hend =>
    rw [List.mem_singleton.1 he] at ht ⊢
    rw [value_of_get? ht]
    refine ⟨fun hlayout => ?_, fun _ => ⟨lineBreak, hbreak, .inl ⟨rfl, fun _ => .inr hend⟩⟩⟩
    exact ((hs _ (TokenStream.lexeme_mem ht)).gap hlayout).append hbreak
  | tabs _ _ _ hrow =>
    exact Change.fill_edit (Nat.lt_succ_self _) (by decide) hrow (isGap_replicate _) he ht

/-- A change of a line break is one of the end of the file. -/
theorem Proposes.layout_after (hended : s.Ended) (h : Proposes s lineBreak r ch)
    (he : e ∈ ch.edits s) (hkind : s.kindIn e.1 TokenKind.breaks = true) {m : Nat} (hm : e.1 < m)
    (hsize : m + 1 < s.size) : s.kindIn m TokenKind.layout = true := by
  have hblank : ∀ {start stop : Nat} {text : List Char}, start < stop →
      (∀ j, start ≤ j → j < stop → s.kindIn j Layout.blanks = true) →
      e ∈ (Change.fill start stop text).edits s → s.kindIn m TokenKind.layout = true := by
    intro start stop text hlt hrow he
    have hdisjoint : ∀ k ∈ TokenKind.breaks, Layout.blanks.contains k = false := by decide
    obtain ⟨hle, hlt', -⟩ := Change.of_mem_fill he hlt
    obtain ⟨t, ht, hbreak⟩ := TokenStream.kindIn_iff.1 hkind
    have hin := hrow e.1 hle hlt'
    rw [TokenStream.kindIn_of_get? ht, hdisjoint t.kind hbreak] at hin
    cases hin
  have hsolid : ∀ {t : Token}, s.get? e.1 = some t → Lexeme.isLayout t.lexeme = false →
      s.kindIn m TokenKind.layout = true := fun ht hsolid =>
    absurd hkind (TokenStream.not_kindIn_layout ht hsolid (by decide))
  cases h.shape with
  | gap _ _ _ _ hlt hrow => exact hblank hlt hrow he
  | before hsp hi hwanted | after hsp hi hwanted =>
    obtain ⟨t, ht⟩ := TokenStream.exists_get? hi
    rw [List.mem_singleton.1 he] at hsolid
    exact hsolid ht (Spacing.solid_of_wanted hsp ht hwanted)
  | trailing _ _ hlt hrow => exact hblank hlt hrow he
  | @blankLines start i text hend hlt hrow =>
    have heof := (hended i).1 hend
    obtain ⟨hle, -⟩ := Change.of_mem_fill he hlt
    exact TokenStream.kindIn_mono (by decide) (hrow m (by omega) (by omega))
  | @lineEnd last hend =>
    have heof := (hended (last + 1)).1 hend
    rw [List.mem_singleton.1 he] at hm
    simp only at hm
    omega
  | tabs _ _ _ hrow => exact hblank (Nat.lt_succ_self _) hrow he

/-- A change that empties the layout after a token is made because a token wants no space there. -/
theorem Proposes.closes (hcl : cl.Covers r) (hended : s.Ended) (hn : s.Neighbours i j x y)
    (hinner : y.kind ≠ .eof) (hlt : i + 1 < j)
    (hbreaks : ∀ k, i < k → k < j → s.kindIn k TokenKind.breaks = false)
    (h : Proposes s lineBreak r ch) (he : (i + 1, []) ∈ ch.edits s) :
    cl.closes (s.before i) x.lexeme y.lexeme = true := by
  have hlayout := hn.between _ (Nat.lt_succ_self i) hlt
  have hnotEof : ∀ m, s.kindIn m [.eof] = true → j < m := by
    intro m hm
    have hsize := TokenStream.get?_lt hn.right
    have := (hended m).1 hm
    have hne : m ≠ j := by
      rintro rfl
      rw [TokenStream.kindIn_of_get? hn.right] at hm
      exact hinner (by simpa using hm)
    omega
  cases h.shape with
  | @gap sp m wanted side g hsp hm hwanted hgap hgt hrow =>
    obtain ⟨z, hz⟩ := TokenStream.exists_get? hm
    obtain ⟨hle, hlt', -, hstart⟩ := Change.of_mem_fill he hgt
    obtain ⟨h₁, h₂⟩ := hn.row (by decide) hrow (Nat.lt_succ_self i) hlt hle hlt'
    have hzero : wanted = 0 := by
      have := hstart (by simp only at hle ⊢; omega)
      simpa using this.symm
    have hsolid := Spacing.solid_of_wanted hsp hz hwanted
    cases side with
    | before =>
      obtain ⟨k, hk, rfl⟩ := Option.map_eq_some_iff.1 hgap
      simp only at hlt' h₂
      obtain rfl : m = j := by
        rcases hn.eq_or_eq hz hsolid (by omega) h₂ with rfl | rfl <;> omega
      obtain rfl : z = y := Option.some.inj (hz.symm.trans hn.right)
      have hcloses : cl.before z.lexeme = true := (Closing.wanted hcl.base hsp hz hwanted).1 hzero
      rw [Closing.closes, hcloses, Bool.or_true]
    | after =>
      obtain ⟨k, hk, rfl⟩ := Option.map_eq_some_iff.1 hgap
      simp only at h₁ hgt h₂
      obtain rfl : m = i := by
        rcases hn.eq_or_eq hz hsolid (by omega) (by omega) with rfl | rfl <;> omega
      obtain rfl : z = x := Option.some.inj (hz.symm.trans hn.left)
      have hcloses : cl.after (s.before m) z.lexeme = true :=
        (Closing.wanted hcl.base hsp hz hwanted).1 hzero
      rw [Closing.closes, hcloses, Bool.true_or]
  | before hsp hi hwanted | after hsp hi hwanted =>
    obtain ⟨t, ht⟩ := TokenStream.exists_get? hi
    have hsolid := Spacing.solid_of_wanted hsp ht hwanted
    obtain ⟨rfl, -⟩ := Prod.mk.inj (List.mem_singleton.1 he)
    exact absurd hlayout (TokenStream.not_kindIn_layout ht hsolid (List.Subset.refl _))
  | @trailing m _ hend hstart hrow =>
    -- The end of the line stands between the two tokens.
    exfalso
    obtain ⟨hle, hlt', -⟩ := Change.of_mem_fill he hstart
    obtain ⟨-, hmj⟩ := hn.row (by decide) hrow (Nat.lt_succ_self i) hlt hle hlt'
    simp only at hlt'
    obtain ⟨z, hz, hkind⟩ := TokenStream.kindIn_iff.1 hend
    have hnot : z.kind ≠ .eof := by
      intro heof
      have := hnotEof m (TokenStream.kindIn_iff.2 ⟨z, hz, by simp [heof]⟩)
      omega
    have hzbreak : s.kindIn m TokenKind.breaks = true := by
      rw [TokenStream.kindIn_of_get? hz]
      revert hkind hnot
      cases z.kind <;> decide
    rcases Nat.eq_or_lt_of_le hmj with rfl | hmj
    · exact TokenStream.not_kindIn_layout hn.right hn.solidRight (by decide) hzbreak
    · rw [hbreaks m (by omega) hmj] at hzbreak
      cases hzbreak
  | @blankLines start m text hend hlt' hrow =>
    exfalso
    have := hnotEof m hend
    obtain ⟨h₁, h₂, -⟩ := Change.of_mem_fill he hlt'
    have := (hn.row (by decide) hrow (Nat.lt_succ_self i) hlt h₁ h₂).2
    omega
  | @lineEnd last hend =>
    exfalso
    have := hnotEof _ hend
    obtain ⟨hlast, -⟩ := Prod.mk.inj (List.mem_singleton.1 he)
    omega
  | @tabs m width token _ hget hindent =>
    -- Right after a token that is no layout there is no indentation.
    exfalso
    obtain ⟨h₁, h₂, -⟩ := Change.of_mem_fill he (Nat.lt_succ_self m)
    obtain rfl : m = i + 1 := by simp only at h₁ h₂; omega
    have hx : ∀ kinds ⊆ TokenKind.layout, kinds.contains x.kind = false := by
      intro kinds hkinds
      rw [← TokenStream.kindIn_of_get? hn.left, Bool.eq_false_iff]
      exact TokenStream.not_kindIn_layout hn.left hn.solidLeft hkinds
    rw [Layout.inIndentation, TokenStream.previousOutside_succ hn.left,
      hx Layout.blanks (by decide)] at hindent
    simp only [Bool.false_eq_true, if_false, TokenStream.kindIn_of_get? hn.left,
      hx [.lineBreak, .commentLineBreak] (by decide)] at hindent

end Edits

/-! ### The pieces of a pass -/

/-- The piece tells what became of the token at `i`. -/
structure Piece.Tells (p : Piece) (s : TokenStream) (b : EditBuffer) (i : Nat) : Prop where
  sound : p.Sound
  token : s.lexemes[i]? = some p.lexeme
  value : b.values[i]? = some p.text
  back : p.back ≠ [] → opensAfter p.lexeme = true ∨ s.kindIn (i + 1) [.eof] = true
  front : p.front ≠ [] → opensBefore p.lexeme = true

section Pass

variable {s : TokenStream} {b : EditBuffer} {lineBreak g : List Char} {rs : Ruleset}
  {i j : Nat} {x y : Token} {ls : List Lexeme}

theorem exists_tells (hs : s.Genuine) (hbreak : IsGap lineBreak) (hb : b.Holds s)
    (hmade : b.Made s (rs.Proposed s lineBreak)) (hi : i < s.size) :
    ∃ p : Piece, p.Tells s b i := by
  obtain ⟨t, ht⟩ := TokenStream.exists_get? hi
  have htoken := TokenStream.lexeme_of_get? ht
  have hgenuine : t.lexeme.Genuine := hs _ (List.mem_of_getElem? htoken)
  have hself : ∀ v : List Char, b.values[i]? = some v →
      (Lexeme.isLayout t.lexeme = true → IsGap v) →
      (Lexeme.isLayout t.lexeme = false → v = t.value) → ∃ p : Piece, p.Tells s b i := by
    intro v hv hlayout hsolid
    refine ⟨⟨t.lexeme, [], v, []⟩, ⟨hgenuine, isGap_nil, isGap_nil, ?_, hsolid⟩, htoken, ?_,
      absurd rfl, absurd rfl⟩
    · exact fun h => ⟨hlayout h, rfl, rfl⟩
    · simpa [Piece.text] using hv
  by_cases hfree : b.IsFree i
  · have hv : b.values[i]? = some t.value := by
      have hget : s.tokens[i]? = some t := ht
      simp [hb.value i hfree, TokenStream.values, hget]
    exact hself _ hv hgenuine.gap fun _ => rfl
  · obtain ⟨ch, ⟨r, hr, hch⟩, hshows, hmem⟩ := hmade i hi hfree
    obtain ⟨e, he, rfl⟩ := List.mem_map.1 hmem
    obtain ⟨hlayout, hsolid⟩ := hch.edit (Ruleset.covers hr) hs hbreak he ht
    have hv := (hshows e he).1
    cases hl : Lexeme.isLayout t.lexeme with
    | true =>
      refine hself _ hv hlayout fun h => ?_
      rw [hl] at h
      cases h
    | false =>
      obtain ⟨text, htext, ⟨heq, hopens⟩ | ⟨heq, hopens⟩⟩ := hsolid hl
      · refine ⟨⟨t.lexeme, [], t.value, text⟩,
          ⟨hgenuine, isGap_nil, htext, fun h => ?_, fun _ => rfl⟩, htoken, ?_, hopens, absurd rfl⟩
        · rw [hl] at h
          cases h
        · rw [hv, heq]
          rfl
      · refine ⟨⟨t.lexeme, text, t.value, []⟩,
          ⟨hgenuine, htext, isGap_nil, fun h => ?_, fun _ => rfl⟩, htoken, ?_, absurd rfl, hopens⟩
        · rw [hl] at h
          cases h
        · rw [hv, heq]
          simp [Piece.text, Token.lexeme]

theorem value_of_break (hended : s.Ended) (hb : b.Holds s)
    (hmade : b.Made s (rs.Proposed s lineBreak)) (hn : s.Neighbours i j x y)
    (hinner : y.kind ≠ .eof) {k : Nat} (hik : i < k) (hkj : k < j)
    (hkind : s.kindIn k TokenKind.breaks = true) : b.values[k]? = s.values[k]? := by
  have hsize := TokenStream.get?_lt hn.right
  by_cases hfree : b.IsFree k
  · exact hb.value k hfree
  · exfalso
    obtain ⟨ch, ⟨r, hr, hch⟩, -, hmem⟩ := hmade k (by omega) hfree
    obtain ⟨e, he, rfl⟩ := List.mem_map.1 hmem
    have hlt : j + 1 < s.size := by
      have hne : j + 1 ≠ s.size := by
        intro heq
        have heof := (hended j).2 heq
        rw [TokenStream.kindIn_of_get? hn.right] at heof
        exact hinner (by simpa using heof)
      omega
    exact TokenStream.not_kindIn_layout hn.right hn.solidRight (List.Subset.refl _)
      (hch.layout_after hended he hkind hkj hlt)

theorem hasBreak_iff : hasBreak g = true ↔ ∃ c ∈ g, c = '\n' ∨ c = '\r' := by
  simp [hasBreak]

theorem hasBreak_eq_false {d : Char} (h : ∀ c ∈ g, c = d) (hd : (d == '\n' || d == '\r') = false) :
    hasBreak g = false := by
  rw [hasBreak, List.any_eq_false]
  intro c hc
  rw [h c hc, hd]
  exact Bool.false_ne_true

namespace Lexeme

variable {l : Lexeme}

theorem Genuine.cases (h : l.Genuine) (hl : l.1 ∈ TokenKind.layout) :
    (l.1 = .spaces ∨ l.1 = .commentSpaces) ∧ (∀ c ∈ l.2, c = ' ') ∨
      (l.1 = .tabs ∨ l.1 = .commentTabs) ∧ (∀ c ∈ l.2, c = '\t') ∨
      l.1 ∈ TokenKind.breaks ∧ l.2 ∈ [['\n'], ['\r'], ['\r', '\n']] := by
  obtain ⟨cls, hrun, hkind⟩ := h (List.contains_iff_mem.2 hl)
  cases cls with
  | text => cases hrun
  | spaces => exact .inl ⟨hkind, hrun⟩
  | tabs => exact .inr (.inl ⟨hkind, hrun⟩)
  | lineBreak =>
    refine .inr (.inr ⟨?_, hrun⟩)
    rcases hkind with hkind | hkind <;> rw [hkind] <;> decide

theorem mem_lineBreak {v : List Char} {c : Char} (hv : v ∈ [['\n'], ['\r'], ['\r', '\n']])
    (hc : c ∈ v) : c = '\n' ∨ c = '\r' := by
  simp only [List.mem_cons, List.not_mem_nil, or_false] at hv
  rcases hv with rfl | rfl | rfl
  · exact .inl (List.mem_singleton.1 hc)
  · exact .inr (List.mem_singleton.1 hc)
  · rcases List.mem_cons.1 hc with hc | hc
    · exact .inr hc
    · exact .inl (List.mem_singleton.1 hc)

theorem Genuine.hasBreak_iff (h : l.Genuine) (hl : l.1 ∈ TokenKind.layout) :
    hasBreak l.2 = true ↔ l.1 ∈ TokenKind.breaks := by
  have hblanks : ∀ kind ∈ [TokenKind.spaces, .commentSpaces, .tabs, .commentTabs],
      kind ∉ TokenKind.breaks := by decide
  rcases h.cases hl with ⟨hkind, hrun⟩ | ⟨hkind, hrun⟩ | ⟨hkind, hrun⟩
  · rw [hasBreak_eq_false hrun rfl]
    exact iff_of_false Bool.false_ne_true (hblanks _ (by rcases hkind with h | h <;> simp [h]))
  · rw [hasBreak_eq_false hrun rfl]
    exact iff_of_false Bool.false_ne_true (hblanks _ (by rcases hkind with h | h <;> simp [h]))
  · refine iff_of_true ?_ hkind
    simp only [List.mem_cons, List.not_mem_nil, or_false] at hrun
    rcases hrun with hrun | hrun | hrun <;> rw [hrun] <;> rfl

end Lexeme

theorem hasBreak_append (g h : List Char) : hasBreak (g ++ h) = (hasBreak g || hasBreak h) :=
  List.any_append

theorem hasBreak_flatten (gs : List (List Char)) : hasBreak gs.flatten = gs.any hasBreak :=
  List.any_flatten

/-- The pieces `p` and `q` at `i` and behind it, with the layout `lay` between them. -/
structure Piece.Adjacent (s : TokenStream) (b : EditBuffer) (i : Nat) (p : Piece) (lay : List Piece)
    (q : Piece) : Prop where
  left : p.Tells s b i
  between : ∀ k (m : Piece), lay[k]? = some m → m.Tells s b (i + 1 + k)
  right : q.Tells s b (i + 1 + lay.length)
  solidLeft : Lexeme.isLayout p.lexeme = false
  layout : ∀ m ∈ lay, Lexeme.isLayout m.lexeme = true
  solidRight : Lexeme.isLayout q.lexeme = false

namespace Piece.Adjacent

variable {lay : List Piece} {p q : Piece}

theorem neighbours (h : Adjacent s b i p lay q) :
    ∃ x y, s.Neighbours i (i + 1 + lay.length) x y ∧ x.lexeme = p.lexeme ∧ y.lexeme = q.lexeme := by
  have hx := h.left.token
  have hy := h.right.token
  rw [TokenStream.lexemes_getElem?] at hx hy
  obtain ⟨x, hx, hxp⟩ := Option.map_eq_some_iff.1 hx
  obtain ⟨y, hy, hyq⟩ := Option.map_eq_some_iff.1 hy
  refine ⟨x, y, ⟨by omega, hx, hy, by rw [hxp]; exact h.solidLeft, by rw [hyq]; exact h.solidRight,
    ?_⟩, hxp, hyq⟩
  intro k hik hkj
  obtain ⟨m, hm⟩ : ∃ m, lay[k - (i + 1)]? = some m := ⟨_, List.getElem?_eq_getElem (by omega)⟩
  have htells := h.between _ m hm
  rw [Nat.add_sub_cancel' hik] at htells
  exact TokenStream.kindIn_iff_lexeme.2
    ⟨_, htells.token, List.contains_iff_mem.1 (h.layout m (List.mem_of_getElem? hm))⟩

theorem value (h : Adjacent s b i p lay q) {k : Nat} {m : Piece} (hm : lay[k]? = some m) :
    s.values[i + 1 + k]? = some m.lexeme.2 ∧ b.values[i + 1 + k]? = some m.body := by
  have htells := h.between k m hm
  obtain ⟨-, hfront, hback⟩ := htells.sound.layout (h.layout m (List.mem_of_getElem? hm))
  constructor
  · have htoken := htells.token
    rw [TokenStream.lexemes_getElem?] at htoken
    obtain ⟨t, ht, heq⟩ := Option.map_eq_some_iff.1 htoken
    have hget : s.tokens[i + 1 + k]? = some t := ht
    simp [TokenStream.values, hget, ← heq, Token.lexeme]
  · simpa [Piece.text, hfront, hback] using htells.value

theorem value_ne_nil (h : Adjacent s b i p lay q)
    (hvalues : ∀ l ∈ s.lexemes, l.1 ≠ .eof → l.2 ≠ []) : ∀ m ∈ lay, m.lexeme.2 ≠ [] := by
  intro m hm
  obtain ⟨k, hk⟩ := List.getElem?_of_mem hm
  refine hvalues _ (List.mem_of_getElem? (h.between k m hk).token) fun heof => ?_
  have hlayout := h.layout m hm
  rw [Lexeme.isLayout, heof] at hlayout
  cases hlayout

/-- A line break is still there. -/
theorem body_of_break (h : Adjacent s b i p lay q) (hended : s.Ended) (hb : b.Holds s)
    (hmade : b.Made s (rs.Proposed s lineBreak)) (hinner : q.lexeme.1 ≠ .eof) :
    ∀ m ∈ lay, m.lexeme.1 ∈ TokenKind.breaks → m.body = m.lexeme.2 := by
  obtain ⟨x, y, hn, -, hyq⟩ := h.neighbours
  rw [← hyq] at hinner
  intro m hm hkind
  obtain ⟨k, hk⟩ := List.getElem?_of_mem hm
  have hlt := (List.getElem?_eq_some_iff.1 hk).1
  obtain ⟨hold, hnew⟩ := h.value hk
  have hsame := value_of_break hended hb hmade hn hinner (k := i + 1 + k) (by omega) (by omega)
    (TokenStream.kindIn_iff_lexeme.2 ⟨_, (h.between k m hk).token, hkind⟩)
  rw [hold, hnew] at hsame
  exact Option.some.inj hsame

/-- Layout that is gone was taken away by a change of its first value. -/
theorem exists_change (h : Adjacent s b i p lay q) (hb : b.Holds s)
    (hmade : b.Made s (rs.Proposed s lineBreak))
    (hvalues : ∀ l ∈ s.lexemes, l.1 ≠ .eof → l.2 ≠ []) (hlay : lay ≠ [])
    (hempty : ∀ m ∈ lay, m.body = []) :
    ∃ r ∈ rs.rules, ∃ ch, Proposes s lineBreak r ch ∧ (i + 1, []) ∈ ch.edits s := by
  obtain ⟨m, lay', rfl⟩ := List.exists_cons_of_ne_nil hlay
  obtain ⟨x, y, hn, -, -⟩ := h.neighbours
  have hsize := TokenStream.get?_lt hn.right
  obtain ⟨hvalue, hbvalue⟩ := h.value (k := 0) (m := m) rfl
  rw [hempty m List.mem_cons_self] at hbvalue
  have hedited : ¬b.IsFree (i + 1) := by
    intro hfree
    have hsame := hb.value _ hfree
    rw [hvalue, hbvalue] at hsame
    exact h.value_ne_nil hvalues m List.mem_cons_self (Option.some.inj hsame).symm
  obtain ⟨ch, ⟨r, hr, hch⟩, hshows, hmem⟩ := hmade (i + 1) (by omega) hedited
  obtain ⟨⟨k, v⟩, he, rfl⟩ := List.mem_map.1 hmem
  obtain rfl : v = [] := by
    have hv := (hshows _ he).1
    rw [hbvalue] at hv
    exact (Option.some.inj hv).symm
  exact ⟨r, hr, ch, hch, he⟩

/-- The gap between two pieces of a pass has changed for a reason. -/
theorem link (h : Adjacent s b i p lay q) (hended : s.Ended) (hb : b.Holds s)
    (hmade : b.Made s (rs.Proposed s lineBreak))
    (hvalues : ∀ l ∈ s.lexemes, l.1 ≠ .eof → l.2 ≠ []) (hinner : q.lexeme.1 ≠ .eof) :
    Link rs.closing (s.before i) (p.gapCell lay q) q.lexeme := by
  obtain ⟨x, y, hn, hxp, hyq⟩ := h.neighbours
  have hyinner : y.kind ≠ .eof := by
    rw [← hyq] at hinner
    exact hinner
  have hmvalue := h.value_ne_nil hvalues
  have hkept := h.body_of_break hended hb hmade hinner
  refine ⟨?_, ?_, ?_⟩
  · intro hold hnew
    -- Without layout the two tokens are next to each other.
    have hnil : lay = [] := by
      cases lay with
      | nil => rfl
      | cons m lay =>
        have := (List.append_eq_nil_iff.1 hold).1
        exact absurd this (hmvalue m List.mem_cons_self)
    subst hnil
    rw [Bool.or_eq_true]
    by_cases hback : p.back = []
    · refine .inr (h.right.front fun hfront => hnew ?_)
      simp [Piece.gapCell, hback, hfront]
    · refine (h.left.back hback).imp_right fun heof => ?_
      rw [TokenStream.kindIn_of_get? (i := i + 1) hn.right] at heof
      exact absurd (by simpa using heof) hyinner
  · intro hold hnew
    simp only [Piece.gapCell, List.append_eq_nil_iff, List.flatten_eq_nil_iff, List.mem_map,
      forall_exists_index, and_imp, forall_apply_eq_imp_iff₂] at hnew
    have hempty := hnew.1.2
    have hlay : lay ≠ [] := by
      rintro rfl
      exact hold rfl
    have hlength := List.length_pos_iff.2 hlay
    obtain ⟨r, hr, ch, hch, he⟩ := h.exists_change hb hmade hvalues hlay hempty
    change rs.closing.closes (s.before i) p.lexeme q.lexeme = true
    rw [← hxp, ← hyq]
    refine hch.closes (Ruleset.covers hr) hended hn hyinner (by omega) ?_ he
    intro k hik hkj
    rw [Bool.eq_false_iff]
    intro hbreak
    obtain ⟨l, hl, hkind⟩ := TokenStream.kindIn_iff_lexeme.1 hbreak
    obtain ⟨m, hm⟩ : ∃ m, lay[k - (i + 1)]? = some m := ⟨_, List.getElem?_eq_getElem (by omega)⟩
    have htoken := (h.between _ m hm).token
    rw [Nat.add_sub_cancel' hik, hl] at htoken
    rw [Option.some.inj htoken] at hkind
    have hmem := List.mem_of_getElem? hm
    have hsame := hkept m hmem hkind
    rw [hempty m hmem] at hsame
    exact hmvalue m hmem hsame.symm
  · intro hold
    obtain ⟨v, hv, hbreak⟩ := List.any_eq_true.1 ((hasBreak_flatten _).symm.trans hold)
    rw [List.map_map] at hv
    obtain ⟨m, hm, rfl⟩ := List.mem_map.1 hv
    obtain ⟨k, hk⟩ := List.getElem?_of_mem hm
    have hkind := ((h.between k m hk).sound.genuine.hasBreak_iff
      (List.contains_iff_mem.1 (h.layout m hm))).1 hbreak
    have hbody : hasBreak m.body = true := by
      rw [hkept m hm hkind]
      exact hbreak
    have hbodies : hasBreak (lay.map Piece.body).flatten = true := by
      rw [hasBreak_flatten]
      exact List.any_eq_true.2 ⟨_, List.mem_map_of_mem hm, hbody⟩
    simp [Piece.gapCell, hasBreak_append, hbodies]

end Piece.Adjacent

theorem exists_list {α : Type} {P : Nat → α → Prop} (n : Nat) (h : ∀ k < n, ∃ a, P k a) :
    ∃ as : List α, as.length = n ∧ ∀ k a, as[k]? = some a → P k a := by
  induction n with
  | zero => exact ⟨[], rfl, nofun⟩
  | succ n ih =>
    obtain ⟨as, hlength, has⟩ := ih fun k hk => h k (by omega)
    obtain ⟨a, ha⟩ := h n (Nat.lt_succ_self n)
    refine ⟨as ++ [a], by simp [hlength], ?_⟩
    intro k a' hk
    rcases Nat.lt_or_ge k as.length with hlt | hge
    · rw [List.getElem?_append_left hlt] at hk
      exact has k a' hk
    · rw [List.getElem?_append_right hge] at hk
      have hlt := (List.getElem?_eq_some_iff.1 hk).1
      obtain rfl : k = as.length := by simp only [List.length_singleton] at hlt; omega
      rw [Nat.sub_self] at hk
      obtain rfl : a = a' := Option.some.inj hk
      rwa [hlength]

namespace Piece

variable {ps : List Piece} {p : Piece}

theorem adjacent_of_split (htells : ∀ k (m : Piece), ps[k]? = some m → m.Tells s b k)
    {init lay rest : List Piece} {q : Piece} (h : ps = init ++ p :: (lay ++ q :: rest))
    (hp : Lexeme.isLayout p.lexeme = false) (hlay : ∀ m ∈ lay, Lexeme.isLayout m.lexeme = true)
    (hq : Lexeme.isLayout q.lexeme = false) : Adjacent s b init.length p lay q := by
  have hat : ∀ k, ps[init.length + k]? = (p :: (lay ++ q :: rest))[k]? := by
    intro k
    rw [h, List.getElem?_append_right (by omega), Nat.add_sub_cancel_left]
  refine ⟨htells _ _ (hat 0), ?_, htells _ _ ?_, hp, hlay, hq⟩
  · intro k m hm
    refine htells _ _ ?_
    rw [Nat.add_assoc, hat, Nat.add_comm 1, List.getElem?_cons_succ,
      List.getElem?_append_left (List.getElem?_eq_some_iff.1 hm).1, hm]
  · rw [Nat.add_assoc, hat, Nat.add_comm 1, List.getElem?_cons_succ,
      List.getElem?_append_right (Nat.le_refl _), Nat.sub_self]
    rfl

theorem all_of_tells (hb : b.Holds s) (hlength : ps.length = s.size)
    (htells : ∀ k (m : Piece), ps[k]? = some m → m.Tells s b k) :
    ps.map lexeme = s.lexemes ∧ ps.map text = b.values.toList := by
  constructor
  · refine List.ext_getElem? fun k => ?_
    rw [List.getElem?_map]
    cases hk : ps[k]? with
    | some m => exact (htells k m hk).token.symm
    | none =>
      have hge := List.getElem?_eq_none_iff.1 hk
      refine (List.getElem?_eq_none ?_).symm
      simpa [TokenStream.lexemes, TokenStream.size, hlength] using hge
  · refine List.ext_getElem? fun k => ?_
    have hat : b.values.toList[k]? = b.values[k]? := Array.getElem?_toList
    rw [List.getElem?_map, hat]
    cases hk : ps[k]? with
    | some m => exact (htells k m hk).value.symm
    | none =>
      have hge := List.getElem?_eq_none_iff.1 hk
      refine (Array.getElem?_eq_none ?_).symm
      rw [hb.size, ← hlength]
      exact hge

theorem text_of_eof (h : p.Tells s b i) (hlast : i + 1 = s.size) (heof : p.lexeme = (.eof, [])) :
    p.text = [] := by
  have hfront : p.front = [] := by
    apply Classical.byContradiction
    intro hne
    have := h.front hne
    rw [heof] at this
    cases this
  have hback : p.back = [] := by
    apply Classical.byContradiction
    intro hne
    rcases h.back hne with hopens | hend
    · rw [heof] at hopens
      cases hopens
    · have := TokenStream.lt_of_kindIn hend
      omega
  have hbody : p.body = [] := by
    rw [h.sound.solid (by rw [heof]; rfl), heof]
  rw [text, hfront, hback, hbody]
  rfl

end Piece

/-- The pieces of a pass are a row of cells whose old text is the template and whose new text is what
    the pass makes of it, and every gap of the row has changed for a reason. -/
theorem row_of_tells {ps : List Piece} {p : Piece} (hls : s.lexemes = ls ++ [(.eof, [])])
    (hsolid : Solid ls) (hb : b.Holds s) (hmade : b.Made s (rs.Proposed s lineBreak))
    (hlength : (ps ++ [p]).length = s.size)
    (htells : ∀ k (m : Piece), (ps ++ [p])[k]? = some m → m.Tells s b k) :
    laid ls = ((cells ps).1, rowLaid Cell.old (cells ps).2.2) ∧
      b.text = (cells ps).2.1 ++ rowText Cell.new (cells ps).2.2 ∧ IsGap (cells ps).2.1 ∧
      Linked rs.closing [] (cells ps).2.2 ∧
      ∀ c ∈ (cells ps).2.2, c.lexeme.2 ≠ [] ∧ IsGap c.old ∧ IsGap c.new := by
  have hended := TokenStream.ended_of_lexemes hls hsolid
  obtain ⟨hlexemes, htexts⟩ := Piece.all_of_tells hb hlength htells
  rw [hls, List.map_append] at hlexemes
  obtain ⟨rfl, hlast⟩ := List.append_inj' hlexemes rfl
  have hp : p.lexeme = (.eof, []) := (List.cons.inj hlast).1
  have hat : ∀ k (m : Piece), ps[k]? = some m → m.Tells s b k := by
    intro k m hm
    refine htells k m ?_
    rw [List.getElem?_append_left (List.getElem?_eq_some_iff.1 hm).1, hm]
  have hsound : ∀ m ∈ ps, m.Sound := by
    intro m hm
    obtain ⟨k, hk⟩ := List.getElem?_of_mem hm
    exact (hat k m hk).sound
  have htext : b.text = (ps.map Piece.text).flatten := by
    have hend : p.text = [] :=
      Piece.text_of_eof (htells ps.length p (by simp)) (by simpa using hlength) hp
    rw [EditBuffer.text, ← htexts]
    simp [hend]
  obtain ⟨-, hgap', hgaps⟩ := gap_cells hsound
  refine ⟨laid_cells ps, htext.trans (text_cells hsound), hgap', ?_, ?_⟩
  · refine linked_cells ?_
    intro init p lay q rest heq hp hlay hq
    have hadjacent := Piece.adjacent_of_split hat heq hp hlay hq
    have hvalues : ∀ l ∈ s.lexemes, l.1 ≠ .eof → l.2 ≠ [] := by
      intro l hl hne
      rw [hls] at hl
      rcases List.mem_append.1 hl with hl | hl
      · exact (hsolid l hl).2
      · rw [List.mem_singleton.1 hl] at hne
        exact absurd rfl hne
    have hinner : q.lexeme.1 ≠ .eof :=
      (hsolid _ (List.mem_map_of_mem (by rw [heq]; simp))).1
    have hbefore : s.before init.length = (meaningful (init.map Piece.lexeme)).reverse ++ [] := by
      rw [TokenStream.before, hls, heq]
      simp
    rw [← hbefore]
    exact hadjacent.link hended hb hmade hvalues hinner
  · intro c hc
    refine ⟨?_, hgaps c hc⟩
    have hmem : c.lexeme ∈ meaningful (ps.map Piece.lexeme) := by
      rw [← lexemes_cells]
      exact List.mem_map_of_mem hc
    exact (hsolid _ (List.mem_filter.1 hmem).1).2

/-- **What a pass makes of a template.** It is the new text of a row of cells whose old text is the
    template, and every gap of the row has changed for a reason. -/
theorem exists_row_of_made (hls : s.lexemes = ls ++ [(.eof, [])]) (hsolid : Solid ls)
    (hs : s.Genuine) (hbreak : IsGap lineBreak) (hb : b.Holds s)
    (hmade : b.Made s (rs.Proposed s lineBreak)) :
    ∃ g g' row, laid ls = (g, rowLaid Cell.old row) ∧ b.text = g' ++ rowText Cell.new row ∧
      IsGap g' ∧ Linked rs.closing [] row ∧
      ∀ c ∈ row, c.lexeme.2 ≠ [] ∧ IsGap c.old ∧ IsGap c.new := by
  obtain ⟨ps, hlength, htells⟩ := exists_list s.size fun k hk => exists_tells hs hbreak hb hmade hk
  rcases List.eq_nil_or_concat ps with rfl | ⟨ps, p, rfl⟩
  · have hsize := congrArg List.length hls
    simp [TokenStream.lexemes] at hsize
    simp [TokenStream.size, hsize] at hlength
  · rw [List.concat_eq_append] at hlength htells
    exact ⟨_, _, _, row_of_tells hls hsolid hb hmade hlength htells⟩

end Pass

end TwigStyle
