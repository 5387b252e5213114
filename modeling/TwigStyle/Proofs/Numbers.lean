import TwigStyle.Proofs.Gaps
import TwigStyle.Proofs.Lookahead

/-!
# The parts of a number

A number is digits, possibly a fraction and possibly an exponent.  `exists_parts` cuts what is read
as a number into these parts, and `Parts.numberLength_iff` says in front of which texts it is read.
-/

namespace TwigStyle

namespace Lexeme

variable {d f t v x : List Char} {c : Char}

theorem runLength_append {p : Char → Bool} (hd : ∀ c ∈ d, p c = true) :
    runLength p (d ++ t) = d.length + runLength p t := by
  induction d with
  | nil => simp
  | cons c d ih =>
    rw [List.cons_append, runLength_cons, if_pos (hd c List.mem_cons_self),
      ih fun a ha => hd a (List.mem_cons_of_mem c ha), List.length_cons]
    omega

/-- The parts of a number. -/
structure Parts (v d f x : List Char) : Prop where
  eq : v = d ++ (f ++ x)
  whole : d ≠ [] ∧ ∀ c ∈ d, c.isDigit = true
  fraction : f = [] ∨ ∃ ds, f = '.' :: ds ∧ ds ≠ [] ∧ ∀ c ∈ ds, c.isDigit = true
  exponent : x = [] ∨ ∃ e s ds, x = e :: s :: ds ∧ (e = 'e' ∨ e = 'E') ∧ (s = '+' ∨ s = '-') ∧
    ds ≠ [] ∧ ∀ c ∈ ds, c.isDigit = true

theorem fractionLength_dot (t : List Char) :
    fractionLength ('.' :: t) = if digitsLength t = 0 then 0 else 1 + digitsLength t := rfl

theorem fractionLength_of_ne (hc : c ≠ '.') (t : List Char) : fractionLength (c :: t) = 0 := by
  unfold fractionLength
  split
  · rename_i h
    exact absurd (List.cons.inj h).1 hc
  · rfl

theorem exponentLength_cons {e s : Char} (he : e = 'e' ∨ e = 'E') (hs : s = '+' ∨ s = '-')
    (ht : digitsLength t ≠ 0) : exponentLength (e :: s :: t) = 2 + digitsLength t := by
  unfold exponentLength
  rcases he with rfl | rfl <;> rcases hs with rfl | rfl <;> simp [ht]

theorem digitsLength_of_not_isDigit (hc : c.isDigit = false) : digitsLength (c :: t) = 0 := by
  rw [digitsLength, runLength_cons, hc]
  rfl

theorem digitsLength_eq_zero_iff : digitsLength t = 0 ↔ t.head?.any Char.isDigit = false := by
  cases t with
  | nil => simp [digitsLength, runLength]
  | cons c t => cases hc : c.isDigit <;> simp [digitsLength, runLength_cons, hc]

theorem fractionLength_ne_zero_iff :
    fractionLength t ≠ 0 ↔ ∃ a, a.isDigit = true ∧ ['.', a] <+: t := by
  constructor
  · intro h
    unfold fractionLength at h
    split at h
    · rename_i u
      cases u with
      | nil => simp [digitsLength, runLength] at h
      | cons a u =>
        refine ⟨a, ?_, by simp [List.cons_prefix_cons]⟩
        cases ha : a.isDigit with
        | true => rfl
        | false => simp [digitsLength_of_not_isDigit ha] at h
    · exact absurd rfl h
  · rintro ⟨a, ha, u, rfl⟩
    rw [List.cons_append, fractionLength_dot]
    simp [digitsLength, runLength_cons, ha]

theorem exponentLength_ne_zero_iff :
    exponentLength t ≠ 0 ↔ ∃ e s a, (e = 'e' ∨ e = 'E') ∧ (s = '+' ∨ s = '-') ∧
      a.isDigit = true ∧ [e, s, a] <+: t := by
  constructor
  · intro h
    unfold exponentLength at h
    split at h
    · rename_i e s u
      split at h
      · rename_i hcond
        simp only [Bool.and_eq_true, Bool.or_eq_true, beq_iff_eq, bne_iff_ne] at hcond
        obtain ⟨⟨he, hs⟩, hdigits⟩ := hcond
        cases u with
        | nil => simp [digitsLength, runLength] at hdigits
        | cons a u =>
          refine ⟨e, s, a, he, hs, ?_, by simp [List.cons_prefix_cons]⟩
          cases ha : a.isDigit with
          | true => rfl
          | false => exact absurd (digitsLength_of_not_isDigit ha) hdigits
      · exact absurd rfl h
    · exact absurd rfl h
  · rintro ⟨e, s, a, he, hs, ha, u, rfl⟩
    have hdigits : digitsLength ([a] ++ u) ≠ 0 := by simp [digitsLength, runLength_cons, ha]
    have hlength := exponentLength_cons he hs hdigits
    simp only [List.cons_append, List.nil_append] at hlength ⊢
    omega

theorem numberLength_digits (hne : d ≠ []) (hd : ∀ c ∈ d, c.isDigit = true)
    (ht : digitsLength t = 0) : numberLength (d ++ t) =
      d.length + (fractionLength t + exponentLength (t.drop (fractionLength t))) := by
  have hpos := List.length_pos_iff.2 hne
  have hwhole : digitsLength (d ++ t) = d.length := by
    have := runLength_append (t := t) hd
    rw [digitsLength] at ht ⊢
    omega
  have hdrop : ∀ n, (d ++ t).drop (d.length + n) = t.drop n := fun n => by simp
  have hdrop' : (d ++ t).drop d.length = t := by simp
  simp only [numberLength, hwhole, hdrop, hdrop']
  rw [if_neg (by omega)]
  omega

theorem length_lt_numberLength (hd : ∀ c ∈ d, c.isDigit = true) (ht : digitsLength t ≠ 0) :
    d.length < numberLength (d ++ t) := by
  have hwhole : digitsLength (d ++ t) = d.length + digitsLength t := runLength_append hd
  simp only [numberLength, hwhole]
  rw [if_neg (by omega)]
  omega

theorem isLayout_of_isDigit {a : Char} (h : a.isDigit = true) : Text.isLayout a = false :=
  isLayout_eq_false (p := Char.isDigit) rfl h

theorem Parts.chars (h : Parts v d f x) :
    (∀ a ∈ v, Text.isLayout a = false) ∧ (∃ a, v.getLast? = some a ∧ a.isDigit = true) := by
  obtain ⟨rfl, ⟨hne, hd⟩, hf, hx⟩ := h
  have hlast : ∀ {ds : List Char} (p : List Char), ds ≠ [] → (∀ c ∈ ds, c.isDigit = true) →
      ∃ a, (p ++ ds).getLast? = some a ∧ a.isDigit = true := by
    intro ds p hds hall
    refine ⟨ds.getLast hds, ?_, hall _ (List.getLast_mem hds)⟩
    rw [List.getLast?_append, List.getLast?_eq_some_getLast hds, Option.some_or]
  constructor
  · intro a ha
    have hdigits : ∀ {ds : List Char}, (∀ c ∈ ds, c.isDigit = true) → a ∈ ds →
        Text.isLayout a = false := fun hall hmem => isLayout_of_isDigit (hall a hmem)
    rcases List.mem_append.1 ha with ha | ha
    · exact hdigits hd ha
    rcases List.mem_append.1 ha with ha | ha
    · rcases hf with rfl | ⟨fs, rfl, -, hall⟩
      · cases ha
      · rcases List.mem_cons.1 ha with rfl | ha
        · rfl
        · exact hdigits hall ha
    · rcases hx with rfl | ⟨e, s, ds, rfl, he, hs, -, hall⟩
      · cases ha
      · rcases List.mem_cons.1 ha with rfl | ha
        · rcases he with rfl | rfl <;> rfl
        rcases List.mem_cons.1 ha with rfl | ha
        · rcases hs with rfl | rfl <;> rfl
        · exact hdigits hall ha
  · rcases hx with rfl | ⟨e, s, ds, rfl, he, hs, hds, hall⟩
    · rw [List.append_nil]
      rcases hf with rfl | ⟨fs, rfl, hfs, hall⟩
      · simpa using hlast [] hne hd
      · simpa using hlast (d ++ ['.']) hfs hall
    · simpa using hlast (d ++ (f ++ [e, s])) hds hall

/-- A number ends where none of its parts goes on and no further part starts. -/
theorem Parts.numberLength_iff (h : Parts v d f x) (r : List Char) :
    numberLength (v ++ r) = v.length ↔ digitsLength r = 0 ∧
      (f = [] → x = [] → fractionLength r = 0) ∧ (x = [] → exponentLength r = 0) := by
  obtain ⟨rfl, ⟨hne, hd⟩, hf, hx⟩ := h
  have hdigits : ∀ {ds : List Char} (t), (∀ c ∈ ds, c.isDigit = true) →
      digitsLength (ds ++ t) = ds.length + digitsLength t := fun t h => runLength_append h
  -- The exponent, if there is one, is all that is left after the fraction.
  have hexponent : ∀ e s ds, (e = 'e' ∨ e = 'E') → (s = '+' ∨ s = '-') → ds ≠ [] →
      (∀ c ∈ ds, c.isDigit = true) → digitsLength ((e :: s :: ds) ++ r) = 0 ∧
      fractionLength ((e :: s :: ds) ++ r) = 0 ∧
      exponentLength ((e :: s :: ds) ++ r) = ds.length + 2 + digitsLength r := by
    intro e s ds he hs hds hall
    have hpos := List.length_pos_iff.2 hds
    have hlength := hdigits r hall
    have hedigit : e.isDigit = false := by rcases he with rfl | rfl <;> rfl
    have hedot : e ≠ '.' := by rcases he with rfl | rfl <;> decide
    refine ⟨digitsLength_of_not_isDigit hedigit, fractionLength_of_ne hedot _, ?_⟩
    rw [List.cons_append, List.cons_append, exponentLength_cons he hs (by omega)]
    omega
  rw [List.append_assoc, List.append_assoc]
  rcases hf with rfl | ⟨fs, rfl, hfs, hfdigits⟩
  · rw [List.nil_append]
    rcases hx with rfl | ⟨e, s, ds, rfl, he, hs, hds, hall⟩
    · rw [List.nil_append]
      by_cases hr : digitsLength r = 0
      · rw [numberLength_digits hne hd hr]
        simp only [hr, List.append_nil, true_and, forall_const]
        constructor
        · intro h
          have hfraction : fractionLength r = 0 := by omega
          rw [hfraction, List.drop_zero] at h
          omega
        · rintro ⟨hfraction, hexp⟩
          rw [hfraction, List.drop_zero, hexp]
          omega
      · have := length_lt_numberLength hd hr
        simp only [hr, List.append_nil, false_and, iff_false]
        omega
    · obtain ⟨hdigit, hfraction, hexp⟩ := hexponent e s ds he hs hds hall
      rw [numberLength_digits hne hd hdigit, hfraction, List.drop_zero, hexp]
      simp
  · have hpos := List.length_pos_iff.2 hfs
    have hdot : ∀ t, digitsLength ('.' :: fs ++ t) = 0 :=
      fun t => digitsLength_of_not_isDigit (by decide)
    have hfraction : ∀ t, fractionLength ('.' :: fs ++ t) = fs.length + 1 + digitsLength t := by
      intro t
      have := hdigits t hfdigits
      rw [List.cons_append, fractionLength_dot, if_neg (by omega)]
      omega
    have hdrop : ∀ t : List Char, ('.' :: fs ++ t).drop (fs.length + 1) = t := by
      intro t
      rw [List.cons_append, List.drop_succ_cons, List.drop_left]
    rw [numberLength_digits hne hd (hdot _), hfraction]
    rcases hx with rfl | ⟨e, s, ds, rfl, he, hs, hds, hall⟩
    · rw [List.nil_append]
      by_cases hr : digitsLength r = 0
      · rw [hr, Nat.add_zero, hdrop]
        simp
      · simp only [hr, List.length_append, List.length_cons, List.length_nil, false_and, iff_false]
        omega
    · obtain ⟨hdigit, -, hexp⟩ := hexponent e s ds he hs hds hall
      rw [hdigit, Nat.add_zero, hdrop, hexp]
      simp
      omega

theorem take_digitsLength (t : List Char) :
    (t.take (digitsLength t)).length = digitsLength t ∧
      ∀ c ∈ t.take (digitsLength t), c.isDigit = true := by
  have htake : t.take (digitsLength t) = t.takeWhile Char.isDigit := by
    have h := List.take_append_drop (digitsLength t) t
    have h' : t.takeWhile Char.isDigit ++ t.dropWhile Char.isDigit = t :=
      List.takeWhile_append_dropWhile
    exact List.append_inj_left (h.trans h'.symm)
      (by rw [List.length_take, digitsLength, runLength, Nat.min_eq_left]
          exact (List.takeWhile_sublist _).length_le)
  rw [htake]
  exact ⟨rfl, fun c hc => (List.all_eq_true.1 List.all_takeWhile) c hc⟩

theorem take_fractionLength (u : List Char) : u.take (fractionLength u) = [] ∨
    ∃ ds, u.take (fractionLength u) = '.' :: ds ∧ ds ≠ [] ∧ ∀ c ∈ ds, c.isDigit = true := by
  unfold fractionLength
  split
  · rename_i t
    obtain ⟨hlength, hall⟩ := take_digitsLength t
    split
    · exact .inl rfl
    · refine .inr ⟨t.take (digitsLength t), by rw [Nat.add_comm, List.take_succ_cons], ?_, hall⟩
      intro hnil
      rw [hnil] at hlength
      exact absurd hlength.symm (by assumption)
  · exact .inl rfl

theorem take_exponentLength (u : List Char) : u.take (exponentLength u) = [] ∨
    ∃ e s ds, u.take (exponentLength u) = e :: s :: ds ∧ (e = 'e' ∨ e = 'E') ∧
      (s = '+' ∨ s = '-') ∧ ds ≠ [] ∧ ∀ c ∈ ds, c.isDigit = true := by
  unfold exponentLength
  split
  · rename_i e s t
    obtain ⟨hlength, hall⟩ := take_digitsLength t
    split
    · rename_i hcond
      simp only [Bool.and_eq_true, Bool.or_eq_true, beq_iff_eq, bne_iff_ne] at hcond
      obtain ⟨⟨he, hs⟩, hpos⟩ := hcond
      refine .inr ⟨e, s, t.take (digitsLength t), ?_, he, hs, ?_, hall⟩
      · rw [Nat.add_comm, List.take_succ_cons, List.take_succ_cons]
      · intro hnil
        rw [hnil] at hlength
        exact hpos hlength.symm
    · exact .inl rfl
  · exact .inl rfl

/-- What is read as a number is made of the parts of a number. -/
theorem exists_parts {r : List Char} (hne : v ≠ []) (h : numberLength (v ++ r) = v.length) :
    ∃ d f x, Parts v d f x := by
  have hpos := List.length_pos_iff.2 hne
  have hv : v = (v ++ r).take (numberLength (v ++ r)) := by rw [h, List.take_left]
  generalize v ++ r = t at h hv
  unfold numberLength at h hv
  simp only at h hv
  split at hv
  · simp at hv
    exact absurd hv hne
  · rename_i hwhole
    obtain ⟨hlength, hall⟩ := take_digitsLength t
    rw [List.take_add, List.take_add, List.append_assoc] at hv
    exact ⟨_, _, _, hv, ⟨by intro hnil; rw [hnil] at hlength; exact hwhole hlength.symm, hall⟩,
      take_fractionLength _, take_exponentLength _⟩

theorem number_parts (h : c.isDigit = true) :
    ∃ d f x, Parts (c :: t.take (numberLength (c :: t) - 1)) d f x := by
  have hpos : 0 < numberLength (c :: t) := by
    simp only [numberLength, digitsLength, runLength_cons, h, if_true, Nat.add_one_ne_zero,
      if_false]
    omega
  obtain ⟨n, hn⟩ := Nat.exists_eq_add_one.2 hpos
  have hle := numberLength_le (c :: t)
  have hlength : numberLength ((c :: t.take n) ++ t.drop n) = (c :: t.take n).length := by
    rw [List.cons_append, List.take_append_drop, hn, List.length_cons, List.length_take,
      Nat.min_eq_left]
    rw [hn, List.length_cons] at hle
    omega
  rw [hn, Nat.add_sub_cancel]
  exact exists_parts (List.cons_ne_nil _ _) hlength

theorem getLast?_number (h : c.isDigit = true) :
    ∃ a, (c :: t.take (numberLength (c :: t) - 1)).getLast? = some a ∧ a.isDigit = true := by
  obtain ⟨d, f, x, hparts⟩ := number_parts (t := t) h
  exact hparts.chars.2

end Lexeme

end TwigStyle
