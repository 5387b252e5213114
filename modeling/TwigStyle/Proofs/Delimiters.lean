import TwigStyle.Proofs.Lookahead

/-!
# How delimiters are spelled

A delimiter is a brace, a character that says what it opens, and possibly a trim marker
(`at?_eq_some_iff`).  What `Delimiter.find` finds is such a delimiter, and in a verbatim body it is
the one of the tag that ends the body (`find_found`).  Comments end with `#` and a brace, possibly
behind a trim marker.
-/

namespace TwigStyle

namespace Delimiter

variable {body rest t value : List Char} {k : Construct} {c : Char} {verbatim : Bool}

/-! ### The next delimiter -/

theorem isLayout_of_isTrimMarker (h : isTrimMarker c = true) : Text.isLayout c = false := by
  simp only [isTrimMarker, Bool.or_eq_true, beq_iff_eq] at h
  rcases h with rfl | rfl <;> rfl

theorem mem_of_construct? (h : construct? c = some k) : c ∈ ['\x7b', '%', '#'] := by
  unfold construct? at h
  split at h
  · rename_i hc
    simp [eq_of_beq hc]
  · split at h
    · rename_i hc
      simp [eq_of_beq hc]
    · split at h
      · rename_i hc
        simp [eq_of_beq hc]
      · cases h

theorem isLayout_of_construct? (h : construct? c = some k) : Text.isLayout c = false := by
  have hmem := mem_of_construct? h
  simp only [List.mem_cons, List.not_mem_nil, or_false] at hmem
  rcases hmem with rfl | rfl | rfl <;> rfl

theorem at?_eq_some_iff :
    at? (value ++ rest) = some (k, value, rest) ↔ ∃ d marker, value = '\x7b' :: d :: marker ∧
      construct? d = some k ∧ trimMarker (marker ++ rest) = (marker, rest) := by
  constructor
  · intro h
    generalize ht : value ++ rest = t at h
    unfold at? at h
    split at h
    · rename_i d u
      split at h
      · cases h
      · rename_i k' hk
        have hu := trimMarker_append u
        rcases hm : trimMarker u with ⟨marker, after⟩
        rw [hm] at h hu
        cases h
        exact ⟨d, marker, rfl, hk, by rw [hu, hm]⟩
    · cases h
  · rintro ⟨d, marker, rfl, hk, hmarker⟩
    simp only [List.cons_append, at?, hk, hmarker]

theorem mem_of_at? (h : at? (value ++ rest) = some (k, value, rest)) :
    ∀ c ∈ value, c ∈ ['\x7b', '%', '#', '-', '~'] := by
  obtain ⟨d, marker, rfl, hd, hmarker⟩ := at?_eq_some_iff.1 h
  intro c hc
  rcases List.mem_cons.1 hc with rfl | hc
  · simp
  rcases List.mem_cons.1 hc with rfl | hc
  · exact List.mem_append_left ['-', '~'] (mem_of_construct? hd)
  · cases marker with
    | nil => cases hc
    | cons m marker =>
      simp only [List.cons_append, trimMarker] at hmarker
      split at hmarker
      · rename_i hm
        obtain rfl : marker = [] := by simpa using hmarker
        rw [List.mem_singleton.1 hc]
        simp only [isTrimMarker, Bool.or_eq_true, beq_iff_eq] at hm
        rcases hm with rfl | rfl <;> simp
      · cases hmarker

theorem isLayout_of_mem_at? (h : at? (value ++ rest) = some (k, value, rest)) :
    ∀ c ∈ value, Text.isLayout c = false := by
  intro c hc
  have hmem := mem_of_at? h c hc
  simp only [List.mem_cons, List.not_mem_nil, or_false] at hmem
  rcases hmem with rfl | rfl | rfl | rfl | rfl <;> rfl

/-- What is found is found from its own place on. -/
theorem find_found {skip : Nat} {before : List Char}
    (h : find verbatim skip t = (before, some (k, value, rest))) :
    at? (value ++ rest) = some (k, value, rest) ∧
      (verbatim = true → endsVerbatim (value ++ rest) = true) := by
  induction t generalizing skip before with
  | nil =>
    cases skip <;> cases h
  | cons c t ih =>
    have key : ∀ {n : Nat}, (c :: (find verbatim n t).1, (find verbatim n t).2) =
        (before, some (k, value, rest)) → at? (value ++ rest) = some (k, value, rest) ∧
          (verbatim = true → endsVerbatim (value ++ rest) = true) := by
      intro n hn
      exact ih (Prod.ext rfl (Prod.mk.inj hn).2)
    cases skip with
    | succ skip => exact key h
    | zero =>
      rw [find] at h
      split at h
      · exact key h
      · rename_i k' value' rest' hat
        split at h
        · exact key h
        · rename_i hcounts
          cases h
          rw [(at?_append hat).1]
          refine ⟨hat, fun hverbatim => ?_⟩
          simpa [hverbatim] using hcounts

theorem find_of_at? (hat : at? (value ++ rest) = some (k, value, rest))
    (hverbatim : verbatim = true → endsVerbatim (value ++ rest) = true) :
    find verbatim 0 (value ++ rest) = ([], some (k, value, rest)) := by
  cases ht : value ++ rest with
  | nil =>
    rw [ht] at hat
    cases hat
  | cons c t =>
    rw [ht] at hat hverbatim
    rw [find, hat]
    cases verbatim with
    | false => rfl
    | true => simp [hverbatim rfl]

/-! ### Verbatim bodies -/

/-- The tag that ends a verbatim body: its name with blanks around it, between delimiters. -/
theorem endsVerbatim_iff : endsVerbatim t = true ↔ ∃ t₁ w t₂ t₃, t = '\x7b' :: '%' :: t₁ ∧
      (w = "endverbatim".toList ∨ w = "endraw".toList) ∧
      (trimMarker t₁).2.dropWhile Text.isBlank = w ++ t₂ ∧
      (trimMarker (t₂.dropWhile Text.isBlank)).2 = '%' :: '\x7d' :: t₃ := by
  unfold endsVerbatim
  cases hopen : Text.after? ['\x7b', '%'] t with
  | none =>
    simp only [Bool.false_eq_true, false_iff]
    rintro ⟨t₁, w, t₂, t₃, rfl, -, -, -⟩
    have := Text.after?_append ['\x7b', '%'] t₁
    rw [List.cons_append, List.cons_append, List.nil_append, hopen] at this
    cases this
  | some t₁ =>
    have ht := Text.after?_eq_some_iff.1 hopen
    simp only
    generalize hu : (trimMarker t₁).2.dropWhile Text.isBlank = u
    have hend : ∀ t₂ : List Char, (afterBlockEnd? (t₂.dropWhile Text.isBlank)).isSome = true ↔
        ∃ t₃, (trimMarker (t₂.dropWhile Text.isBlank)).2 = '%' :: '\x7d' :: t₃ := by
      intro t₂
      rw [afterBlockEnd?, Option.isSome_iff_exists]
      exact exists_congr fun t₃ => Text.after?_eq_some_iff
    constructor
    · intro h
      split at h
      · cases h
      · rename_i t₂ hname
        obtain ⟨t₃, h₃⟩ := (hend t₂).1 h
        rcases Option.or_eq_some_iff.1 hname with hname | ⟨-, hname⟩
        · exact ⟨t₁, _, t₂, t₃, ht, .inl rfl, hu.trans (Text.after?_eq_some_iff.1 hname), h₃⟩
        · exact ⟨t₁, _, t₂, t₃, ht, .inr rfl, hu.trans (Text.after?_eq_some_iff.1 hname), h₃⟩
    · rintro ⟨t₁', w, t₂, t₃, ht', hw, hname, h₃⟩
      obtain rfl : t₁ = t₁' := by
        rw [ht] at ht'
        simpa using ht'
      rw [hu] at hname
      have hor : (Text.after? "endverbatim".toList u).or (Text.after? "endraw".toList u) =
          some t₂ := by
        rcases hw with rfl | rfl
        · rw [hname, Text.after?_append]
          rfl
        · rw [hname, Text.after?_append]
          rfl
      rw [hor]
      exact (hend t₂).2 ⟨t₃, h₃⟩

/-! ### Comments -/

theorem commentEndAt?_eq_some_iff : commentEndAt? t = some (value, rest) ↔ t = value ++ rest ∧
      (value = ['#', '\x7d'] ∨ ∃ m, isTrimMarker m = true ∧ value = [m, '#', '\x7d']) := by
  constructor
  · intro h
    unfold commentEndAt? at h
    split at h
    · cases h
      exact ⟨rfl, .inl rfl⟩
    · split at h
      · rename_i hm
        cases h
        exact ⟨rfl, .inr ⟨_, hm, rfl⟩⟩
      · cases h
    · cases h
  · rintro ⟨rfl, rfl | ⟨m, hm, rfl⟩⟩
    · rfl
    · simp [commentEndAt?, hm]

theorem commentBody?_cons : commentBody? (c :: t) = some (c :: body, value, rest) ↔
      commentEndAt? (c :: t) = none ∧ commentBody? t = some (body, value, rest) := by
  rw [commentBody?]
  cases commentEndAt? (c :: t) with
  | some e => simp
  | none =>
    cases commentBody? t with
    | none => simp
    | some r =>
      obtain ⟨b, v, r⟩ := r
      simp

theorem commentBody?_found (h : commentBody? t = some (body, value, rest)) :
    commentEndAt? (value ++ rest) = some (value, rest) := by
  induction t generalizing body with
  | nil => cases h
  | cons c t ih =>
    rw [commentBody?] at h
    split at h
    · rename_i hend
      cases h
      rw [(commentEndAt?_append hend).1]
      exact hend
    · split at h
      · cases h
      · rename_i hbody
        cases h
        exact ih hbody

end Delimiter

end TwigStyle
