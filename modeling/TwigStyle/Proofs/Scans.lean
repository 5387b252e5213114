import TwigStyle.Token.Stream

/-!
# What the scans of a stream find

A scan stops at the first token that fits; every token it passes does not.  The two statements for
`seekUp` and `seekDown` are cases of one about paths and carry all searches of the rules: `nextOutside` and `previousOutside` find the
tokens that bound a run of given kinds.
-/

namespace TwigStyle

namespace TokenStream

variable {s : TokenStream} {p : Token → Bool} {kinds : List TokenKind} {steps i j start : Nat}

theorem get?_lt {t : Token} (h : s.get? i = some t) : i < s.size :=
  (Array.getElem?_eq_some_iff.1 h).1

theorem exists_get? (h : i < s.size) : ∃ t, s.get? i = some t :=
  ⟨_, Array.getElem?_eq_getElem h⟩

theorem kindIn_iff : s.kindIn i kinds = true ↔ ∃ t, s.get? i = some t ∧ t.kind ∈ kinds := by
  simp [kindIn, get?, Option.any_eq_true]

theorem lt_of_kindIn (h : s.kindIn i kinds = true) : i < s.size := by
  obtain ⟨t, ht, -⟩ := kindIn_iff.1 h
  exact get?_lt ht

theorem kindIn_of_get? {t : Token} (h : s.get? i = some t) :
    s.kindIn i kinds = kinds.contains t.kind := by
  unfold get? at h
  simp [kindIn, h]

theorem kindIn_mono {kinds' : List TokenKind} (hkinds : kinds ⊆ kinds')
    (h : s.kindIn i kinds = true) : s.kindIn i kinds' = true := by
  obtain ⟨t, ht, hkind⟩ := kindIn_iff.1 h
  exact kindIn_iff.2 ⟨t, ht, hkinds hkind⟩

section Walk

variable {seek : Nat → Nat → Option Nat} {path : Nat → Nat → Nat}

/-- A scan goes along a path, one token after the other, and stops at the first one that fits. -/
theorem seek_eq_some_iff (hstart : ∀ i, path i 0 = i)
    (hpath : ∀ i k, path (path i 1) k = path i (k + 1)) (hzero : ∀ i, seek 0 i = none)
    (hsucc : ∀ steps i, seek (steps + 1) i =
      match s.tokens[i]? with
      | none => none
      | some t => if p t then some i else seek steps (path i 1)) :
    seek steps i = some j ↔
      ∃ k < steps, path i k = j ∧ (∃ t, s.get? j = some t ∧ p t = true) ∧
        ∀ m < k, ∃ t, s.get? (path i m) = some t ∧ p t = false := by
  induction steps generalizing i with
  | zero => simp [hzero]
  | succ steps ih =>
    rw [hsucc]
    constructor
    · intro h
      split at h
      · cases h
      · rename_i t ht
        split at h
        · rename_i hp
          cases h
          exact ⟨0, Nat.succ_pos steps, hstart _, ⟨t, ht, hp⟩, fun m hm => by omega⟩
        · rename_i hp
          obtain ⟨k, hk, hj, hfit, hmiss⟩ := ih.1 h
          refine ⟨k + 1, Nat.succ_lt_succ hk, hpath i k ▸ hj, hfit, ?_⟩
          rintro (_ | m) hm
          · rw [hstart]
            exact ⟨t, ht, Bool.eq_false_iff.2 hp⟩
          · rw [← hpath]
            exact hmiss m (Nat.lt_of_succ_lt_succ hm)
    · rintro ⟨k, hk, hj, hfit, hmiss⟩
      cases k with
      | zero =>
        obtain ⟨t, ht, hp⟩ := hfit
        obtain rfl : i = j := (hstart i).symm.trans hj
        simp only [show s.tokens[i]? = some t from ht, hp, if_true]
      | succ k =>
        obtain ⟨t, ht, hp⟩ := hmiss 0 (Nat.succ_pos k)
        rw [hstart] at ht
        simp only [show s.tokens[i]? = some t from ht, hp, Bool.false_eq_true, if_false]
        refine ih.2 ⟨k, Nat.lt_of_succ_lt_succ hk, (hpath i k).trans hj, hfit, ?_⟩
        intro m hm
        rw [hpath]
        exact hmiss (m + 1) (Nat.succ_lt_succ hm)

end Walk

theorem seekUp_eq_some_iff :
    s.seekUp p steps i = some j ↔
      i ≤ j ∧ j < i + steps ∧ (∃ t, s.get? j = some t ∧ p t = true) ∧
        ∀ k, i ≤ k → k < j → ∃ t, s.get? k = some t ∧ p t = false := by
  rw [seek_eq_some_iff (by omega) (by omega) (fun _ => rfl)
    fun _ _ => rfl]
  constructor
  · rintro ⟨k, hk, rfl, hfit, hmiss⟩
    refine ⟨by omega, by omega, hfit, ?_⟩
    intro m hm hmk
    obtain ⟨m, rfl⟩ := Nat.exists_eq_add_of_le hm
    exact hmiss m (by omega)
  · rintro ⟨hle, hlt, hfit, hmiss⟩
    obtain ⟨k, rfl⟩ := Nat.exists_eq_add_of_le hle
    exact ⟨k, by omega, rfl, hfit, fun m hm => hmiss (i + m) (by omega) (by omega)⟩

/-- The first fitting token downwards; the scan does not run past the start of the stream. -/
theorem seekDown_eq_some_iff (hsteps : steps ≤ i + 1) :
    s.seekDown p steps i = some j ↔
      j ≤ i ∧ i < j + steps ∧ (∃ t, s.get? j = some t ∧ p t = true) ∧
        ∀ k, j < k → k ≤ i → ∃ t, s.get? k = some t ∧ p t = false := by
  rw [seek_eq_some_iff (by omega) (by omega) (fun _ => rfl)
    fun _ _ => rfl]
  constructor
  · rintro ⟨k, hk, rfl, hfit, hmiss⟩
    refine ⟨by omega, by omega, hfit, ?_⟩
    intro m hkm hm
    have hmiss := hmiss (i - m) (by omega)
    rwa [Nat.sub_sub_self hm] at hmiss
  · rintro ⟨hle, hlt, hfit, hmiss⟩
    exact ⟨i - j, by omega, Nat.sub_sub_self hle, hfit,
      fun m hm => hmiss (i - m) (by omega) (by omega)⟩

theorem outside_iff {kind : TokenKind} : (kinds.contains kind != true) = true ↔ kind ∉ kinds := by
  simp

theorem inside_iff {kind : TokenKind} : (kinds.contains kind != true) = false ↔ kind ∈ kinds := by
  simp

theorem nextOutside_eq_some_iff :
    s.nextOutside kinds start = some j ↔
      start ≤ j ∧ (∃ t, s.get? j = some t ∧ t.kind ∉ kinds) ∧
        ∀ k, start ≤ k → k < j → s.kindIn k kinds = true := by
  simp only [nextOutside, findNext, Option.getD_none, Nat.min_self, seekUp_eq_some_iff, outside_iff,
    inside_iff, ← kindIn_iff]
  refine and_congr_right fun hle => and_iff_right_of_imp ?_
  rintro ⟨⟨t, ht, -⟩, -⟩
  have hlt := get?_lt ht
  omega

theorem previousOutside_eq_some_iff (hi : i ≤ s.size) :
    s.previousOutside kinds i = some j ↔
      j < i ∧ (∃ t, s.get? j = some t ∧ t.kind ∉ kinds) ∧
        ∀ k, j < k → k < i → s.kindIn k kinds = true := by
  cases i with
  | zero => simp [previousOutside]
  | succ i =>
    have hsize : s.size ≠ 0 := by omega
    have hmin : min i (s.size - 1) = i := by omega
    simp only [previousOutside, findPrevious, hsize, if_false, hmin, Option.getD_none,
      Nat.not_lt_zero, Nat.sub_zero, seekDown_eq_some_iff (Nat.le_refl _), outside_iff, inside_iff,
      ← kindIn_iff, Nat.lt_succ_iff]
    exact and_congr_right fun hle => and_iff_right (by omega)

theorem previousOutside_eq_none (hi : i ≤ s.size) (h : s.previousOutside kinds i = none) :
    ∀ k < i, s.kindIn k kinds = true := by
  -- The last token of another kind would have been found.
  have hlast : ∀ n, ∀ k, i ≤ k + n → k < i → s.kindIn k kinds = true := by
    intro n
    induction n with
    | zero =>
      intro k hle hlt
      omega
    | succ n ih =>
      intro k hle hlt
      apply Classical.byContradiction
      intro hother
      obtain ⟨t, ht⟩ := exists_get? (Nat.lt_of_lt_of_le hlt hi)
      have hkind : t.kind ∉ kinds := fun hmem => hother (kindIn_iff.2 ⟨t, ht, hmem⟩)
      have hfound : s.previousOutside kinds i = some k :=
        (previousOutside_eq_some_iff hi).2
          ⟨hlt, ⟨t, ht, hkind⟩, fun m hkm hm => ih m (by omega) hm⟩
      rw [h] at hfound
      cases hfound
  exact fun k hk => hlast i k (Nat.le_add_left i k) hk

end TokenStream

end TwigStyle
