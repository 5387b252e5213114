import TwigStyle.Rule.Naming

/-!
# What the tables of letter case agree on

Small and capital forms are listed apart, and nothing in the lists says that they fit together.
Four things about them are checked here on the lists as a whole, from which the rest follows for
every character.

* A small form is its own small form (`toLower_of_mem_toLower`).
* A capital is its own capital form (`toUpper_of_isUpper`).
* What a small letter becomes as a capital is found again by way of its own small form
  (`capitalize_toLower_of_mem_toUpper`).
* A change of case that changes a character makes a letter if it makes a character of ASCII
  (`mem_toLower`, `mem_toUpper`).

The lists hold some 1400 characters each, so no check looks at them one by one.  A set of characters
is a number with a bit for each, and two sets are disjoint if the numbers share no bit; and whether a
change is taken back is seen from the ends of its run.
-/

namespace TwigStyle.Text

variable {a b k m n : Nat} {c y : Char} {runs : List ShiftRun} {r s : ShiftRun} {p : Char → Bool}
  {e : Nat × List Nat}

/-! ### Runs -/

theorem CodeRun.holds_iff {r : CodeRun} :
    r.holds n = true ↔ r.first ≤ n ∧ n ≤ r.last ∧ r.step ∣ n - r.first := by
  simp [holds, and_assoc, Nat.dvd_iff_mod_eq_zero]

namespace ShiftRun

variable {n : Nat} {r : ShiftRun} {p : Char → Bool}

/-- Where a run moves a code point. -/
def move (r : ShiftRun) (n : Nat) : Nat := ((n : Int) + r.shift).toNat

theorem move_bounds (h : r.holds n = true) :
    r.move r.first ≤ r.move n ∧ r.move n ≤ r.move r.last := by
  have := CodeRun.holds_iff.1 h
  unfold move
  omega

/-- Does a run lead out of ASCII, or to one letter of the given kind? -/
def lands (p : Char → Bool) (r : ShiftRun) : Bool :=
  0 ≤ (r.first : Int) + r.shift &&
    ((0x80 ≤ r.move r.first && r.move r.last < 0xD800) ||
      (0xDFFF < r.move r.first && r.move r.last < 0x110000) ||
      (r.move r.first == r.move r.last && r.move r.first < 0x80 &&
        p (Char.ofNat (r.move r.first))))

theorem toNat_ofNat (h : n < 0xD800 ∨ (0xDFFF < n ∧ n < 0x110000)) : (Char.ofNat n).toNat = n := by
  have hvalid : n.isValidChar := h
  rw [show Char.ofNat n = Char.ofNatAux n hvalid from dif_pos hvalid]
  rfl

theorem lands_move (h : r.lands p = true) (hn : r.holds n = true) :
    (Char.ofNat (r.move n)).toNat = r.move n ∧
      (0x80 ≤ r.move n ∨ p (Char.ofNat (r.move n)) = true) := by
  have hbounds := move_bounds hn
  simp only [lands, Bool.or_eq_true, Bool.and_eq_true, decide_eq_true_eq, beq_iff_eq] at h
  rcases h.2 with (h | h) | ⟨⟨heq, hlt⟩, hp⟩
  · exact ⟨toNat_ofNat (by omega), Or.inl (by omega)⟩
  · exact ⟨toNat_ofNat (by omega), Or.inl (by omega)⟩
  · have hmove : r.move n = r.move r.first := by omega
    rw [hmove]
    exact ⟨toNat_ofNat (by omega), Or.inr hp⟩

theorem cast_move (h : r.lands p = true) (hn : r.first ≤ n) : (r.move n : Int) = n + r.shift := by
  simp only [lands, Bool.and_eq_true, decide_eq_true_eq] at h
  have hstart := h.1
  unfold move
  omega

theorem move_eq (h : r.lands p = true) (hn : r.first ≤ n) :
    r.move n = r.move r.first + (n - r.first) := by
  have hmove := cast_move h hn
  have hfirst := cast_move h (Nat.le_refl r.first)
  omega

end ShiftRun

/-- The run that holds a code point is the first one that does not end before it. -/
theorem find?_holds (hs : runs.find? (fun s => Nat.ble m s.last) = some s) (hmn : m ≤ n)
    (hn : s.holds n = true) : runs.find? (·.holds n) = some s := by
  obtain ⟨-, before, after, rfl, hbefore⟩ := List.find?_eq_some_iff_append.1 hs
  refine List.find?_eq_some_iff_append.2 ⟨hn, before, after, rfl, ?_⟩
  intro b hb
  have hend := hbefore b hb
  rw [Bool.not_eq_true', ← Bool.not_eq_true, Nat.ble_eq] at hend
  rw [Bool.not_eq_true', Bool.eq_false_iff]
  intro hholds
  have := CodeRun.holds_iff.1 hholds
  omega

theorem shiftBy_of_find? (h : runs.find? (·.holds c.toNat) = some r) :
    shiftBy runs c = Char.ofNat (r.move c.toNat) := by
  unfold shiftBy
  rw [h]
  rfl

theorem shiftBy_of_find?_none (h : runs.find? (·.holds c.toNat) = none) : shiftBy runs c = c := by
  unfold shiftBy
  rw [h]

theorem shiftBy_cases (runs : List ShiftRun) (c : Char) :
    (∃ r ∈ runs, r.holds c.toNat = true ∧ shiftBy runs c = Char.ofNat (r.move c.toNat)) ∨
      shiftBy runs c = c := by
  cases hfind : runs.find? (·.holds c.toNat) with
  | none => exact Or.inr (shiftBy_of_find?_none hfind)
  | some r =>
    have hholds : r.holds c.toNat = true := by
      simpa using List.find?_some hfind
    exact Or.inl ⟨r, List.mem_of_find?_eq_some hfind, hholds, shiftBy_of_find? hfind⟩

/-! ### Sets of code points -/

/-- The bits `0`, `step`, `2 * step` and so on, `k` of them. -/
def rungs (step : Nat) : Nat → Nat
  | 0 => 0
  | k + 1 => Nat.lor (Nat.shiftLeft (rungs step k) step) 1

theorem testBit_rungs (step : Nat) {i : Nat} (h : i < k) :
    (rungs step k).testBit (step * i) = true := by
  induction k generalizing i with
  | zero => exact absurd h (Nat.not_lt_zero i)
  | succ k ih =>
    change ((rungs step k <<< step) ||| 1).testBit (step * i) = true
    rw [Nat.testBit_or, Bool.or_eq_true, Nat.testBit_shiftLeft]
    cases i with
    | zero => exact Or.inr (by rw [Nat.mul_zero]; rfl)
    | succ i =>
      apply Or.inl
      have hback : step * (i + 1) - step = step * i := by
        rw [Nat.mul_succ, Nat.add_sub_cancel]
      rw [hback, ih (Nat.lt_of_succ_lt_succ h), Bool.and_true, decide_eq_true_eq, Nat.mul_succ]
      exact Nat.le_add_left _ _

/-- A run as a set, moved down to 0. -/
def CodeRun.span (r : CodeRun) : Nat := rungs r.step ((r.last - r.first) / r.step + 1)

theorem CodeRun.testBit_span {r : CodeRun} (h : r.holds n = true) :
    r.span.testBit (n - r.first) = true := by
  obtain ⟨-, hlast, hstep⟩ := holds_iff.1 h
  rw [← Nat.mul_div_cancel' hstep]
  apply testBit_rungs
  exact Nat.lt_succ_of_le (Nat.div_le_div_right (Nat.sub_le_sub_right hlast _))

def union (l : List Nat) : Nat := l.foldr Nat.lor 0

theorem testBit_union {l : List Nat} (hm : m ∈ l) (h : m.testBit n = true) :
    (union l).testBit n = true := by
  induction l with
  | nil => cases hm
  | cons a l ih =>
    change (a ||| union l).testBit n = true
    rw [Nat.testBit_or, Bool.or_eq_true]
    rcases List.mem_cons.1 hm with rfl | hm
    · exact Or.inl h
    · exact Or.inr (ih hm)

theorem testBit_shifted (hk : k ≤ n) (h : m.testBit (n - k) = true) :
    (Nat.shiftLeft m k).testBit n = true := by
  change (m <<< k).testBit n = true
  rw [Nat.testBit_shiftLeft, h, Bool.and_true]
  exact decide_eq_true hk

/-- The code points that some run holds. -/
def sources (runs : List CodeRun) : Nat :=
  union (runs.map fun r => Nat.shiftLeft r.span r.first)

theorem testBit_sources {runs : List CodeRun} {r : CodeRun} (hr : r ∈ runs)
    (hn : r.holds n = true) : (sources runs).testBit n = true :=
  testBit_union (List.mem_map_of_mem hr)
    (testBit_shifted (CodeRun.holds_iff.1 hn).1 (CodeRun.testBit_span hn))

/-- The code points that some run leads to. -/
def targets (runs : List ShiftRun) : Nat :=
  union (runs.map fun r => Nat.shiftLeft r.span (r.move r.first))

theorem testBit_targets (hr : r ∈ runs) (hlands : r.lands p = true) (hn : r.holds n = true) :
    (targets runs).testBit (r.move n) = true := by
  refine testBit_union (List.mem_map_of_mem hr) (testBit_shifted (ShiftRun.move_bounds hn).1 ?_)
  rw [ShiftRun.move_eq hlands (CodeRun.holds_iff.1 hn).1, Nat.add_sub_cancel_left]
  exact CodeRun.testBit_span hn

theorem testBit_eq_false (h : Nat.land a b = 0) (ha : a.testBit n = true) :
    b.testBit n = false := by
  have hboth : (a &&& b).testBit n = false := by
    rw [show a &&& b = 0 from h, Nat.zero_testBit]
  rwa [Nat.testBit_and, ha, Bool.true_and] at hboth

theorem testBit_lor_eq_false :
    (Nat.lor a b).testBit n = false ↔ a.testBit n = false ∧ b.testBit n = false := by
  change (a ||| b).testBit n = false ↔ _
  rw [Nat.testBit_or, Bool.or_eq_false_iff]

theorem find?_eq_none (h : (sources (runs.map (·.toCodeRun))).testBit n = false) :
    runs.find? (·.holds n) = none := by
  apply List.find?_eq_none.2
  intro r hr hholds
  rw [testBit_sources (List.mem_map_of_mem hr) hholds] at h
  cases h

/-- The characters with a capital form of several characters. -/
def specialKeys : Nat := union (specialUpper.map fun e => Nat.shiftLeft 1 e.1)

theorem testBit_specialKeys (he : e ∈ specialUpper) : specialKeys.testBit e.1 = true := by
  refine testBit_union (List.mem_map_of_mem he) (testBit_shifted (Nat.le_refl _) ?_)
  rw [Nat.sub_self]
  rfl

theorem ascii_induction {p : Char → Prop} (hp : ∀ n < 0x80, p (Char.ofNat n)) (h : c.toNat < 0x80) :
    p c := by
  have := hp c.toNat h
  rwa [Char.ofNat_toNat] at this

/-! ### There and back -/

/-- Is everything that a run moves moved back by one of the given runs? -/
def ShiftRun.undone (runs : List ShiftRun) (r : ShiftRun) : Bool :=
  -- the kernel computes `Nat.ble` at once, where `≤` is decided step by step
  match runs.find? (fun s => Nat.ble (r.move r.first) s.last) with
  | some s =>
    s.first ≤ r.move r.first && r.move r.last ≤ s.last &&
      (r.move r.first - s.first) % s.step == 0 &&
      (r.step % s.step == 0 || r.first == r.last) &&
      r.shift + s.shift == 0
  | none => false

theorem ShiftRun.find?_of_undone (h : r.undone runs = true) (hlands : r.lands p = true)
    (hn : r.holds n = true) :
    ∃ s, runs.find? (·.holds (r.move n)) = some s ∧ s.move (r.move n) = n := by
  obtain ⟨hfirst, hlast, hon⟩ := CodeRun.holds_iff.1 hn
  have hbounds := move_bounds hn
  have hcast := cast_move hlands hfirst
  unfold undone at h
  split at h
  next s hs =>
    simp only [Bool.and_eq_true, Bool.or_eq_true, decide_eq_true_eq, beq_iff_eq] at h
    obtain ⟨⟨⟨⟨hleft, hright⟩, hstart⟩, hstep⟩, hshift⟩ := h
    have hdist : s.step ∣ n - r.first := by
      rcases hstep with hstep | hone
      · exact Nat.dvd_trans (Nat.dvd_of_mod_eq_zero hstep) hon
      · rw [show n - r.first = 0 by omega]
        exact Nat.dvd_zero _
    have hholds : s.holds (r.move n) = true := by
      refine CodeRun.holds_iff.2 ⟨by omega, by omega, ?_⟩
      rw [move_eq hlands hfirst, Nat.sub_add_comm hleft]
      exact Nat.dvd_add (Nat.dvd_of_mod_eq_zero hstart) hdist
    refine ⟨s, find?_holds hs hbounds.1 hholds, ?_⟩
    change ((r.move n : Int) + s.shift).toNat = n
    omega
  next => exact absurd h Bool.false_ne_true

/-- Where the runs lead a code point that one of them holds. -/
def landing (runs : List ShiftRun) (n : Nat) : Option Nat :=
  match runs.find? (fun s => Nat.ble n s.last) with
  | some s => if s.holds n then some (s.move n) else none
  | none => none

theorem landing_eq_some (h : landing runs n = some m) :
    ∃ s, runs.find? (·.holds n) = some s ∧ s.move n = m := by
  unfold landing at h
  split at h
  next s hs =>
    split at h
    next hholds => exact ⟨s, find?_holds hs (Nat.le_refl n) hholds, Option.some.inj h⟩
    next => cases h
  next => cases h

/-- The characters beyond ASCII with another small form or another capital form. -/
def cased : Nat :=
  Nat.lor (Nat.lor (Nat.shiftLeft 1 0x130) (sources (toLowerRuns.map (·.toCodeRun))))
    (Nat.lor specialKeys (sources (toUpperRuns.map (·.toCodeRun))))

/-- A capital of ASCII is found again by way of its small form, and so is a character that the two
    lists lead to each other from, or that has one form only. -/
def restored (n : Nat) : Bool :=
  n < 0x80 || (landing toLowerRuns n).bind (landing toUpperRuns) == some n || !cased.testBit n

/-! ### What the lists agree on -/

/-- A character that a change to small letters can make: it has no other small form, it is no
    capital, and in ASCII it is a letter. -/
def Small (c : Char) : Prop :=
  toLower c = [c] ∧ isUpper c = false ∧ (0x80 ≤ c.toNat ∨ c.isLower = true)

instance (c : Char) : Decidable (Small c) := inferInstanceAs (Decidable (_ ∧ _ ∧ _))

/-- What is checked about the lists, as one fact so that they are gone through once. -/
structure ListsAgree : Prop where
  lower_lands : (toLowerRuns.all fun r => r.lands Char.isLower) = true
  lower_start : (toLowerRuns.all fun r => 0x80 ≤ r.first && !r.holds 0x130) = true
  /-- No small form is a capital or has another small form. -/
  lower_disjoint : Nat.land (targets toLowerRuns)
    (Nat.lor (sources upperRuns) (sources (toLowerRuns.map (·.toCodeRun)))) = 0
  /-- The one capital whose small form is two characters. -/
  dotted : isUpper (Char.ofNat 0x130) = true ∧
    ((toLower (Char.ofNat 0x130)).all fun y => decide (Small y)) = true
  upper_lands : (toUpperRuns.all fun r => r.lands Char.isUpper) = true
  upper_start : (toUpperRuns.all fun r => 0x80 ≤ r.first) = true
  special_lands : (specialUpper.all fun e => !e.2.isEmpty && e.2.all fun n =>
    n < 0xD800 && (0x80 ≤ n || (Char.ofNat n).isUpper)) = true
  /-- No capital has another capital form. -/
  upper_disjoint : Nat.land (sources upperRuns)
    (Nat.lor specialKeys (sources (toUpperRuns.map (·.toCodeRun)))) = 0
  special_disjoint : Nat.land (sources (toUpperRuns.map (·.toCodeRun))) specialKeys = 0
  /-- The few runs that nothing takes back lead to characters that are found again all the same. -/
  upper_restored : (toUpperRuns.all fun r => r.undone toLowerRuns ||
    (r.last ≤ r.first + 1 && restored (r.move r.first) && restored (r.move r.last))) = true
  special_restored : ((specialUpper.flatMap (·.2)).eraseDups.all restored) = true

instance : Decidable ListsAgree :=
  decidable_of_iff (_ ∧ _ ∧ _ ∧ _ ∧ _ ∧ _ ∧ _ ∧ _ ∧ _ ∧ _ ∧ _)
    ⟨fun ⟨h₁, h₂, h₃, h₄, h₅, h₆, h₇, h₈, h₉, h₁₀, h₁₁⟩ =>
        ⟨h₁, h₂, h₃, h₄, h₅, h₆, h₇, h₈, h₉, h₁₀, h₁₁⟩,
      fun ⟨h₁, h₂, h₃, h₄, h₅, h₆, h₇, h₈, h₉, h₁₀, h₁₁⟩ =>
        ⟨h₁, h₂, h₃, h₄, h₅, h₆, h₇, h₈, h₉, h₁₀, h₁₁⟩⟩

theorem listsAgree : ListsAgree := by
  decide +kernel

theorem lands_of_mem_toLowerRuns (hr : r ∈ toLowerRuns) : r.lands Char.isLower = true :=
  List.all_eq_true.1 (ListsAgree.lower_lands listsAgree) r hr

theorem lands_of_mem_toUpperRuns (hr : r ∈ toUpperRuns) : r.lands Char.isUpper = true :=
  List.all_eq_true.1 (ListsAgree.upper_lands listsAgree) r hr

/-! ### Small forms -/

theorem toLower_beyond (h : 0x80 ≤ c.toNat) (hne : c.toNat ≠ 0x130) :
    toLower c = [shiftBy toLowerRuns c] := by
  unfold toLower
  rw [if_neg (by omega), if_neg (by simpa using hne)]

theorem small_of_isLower (hc : c.toNat < 0x80) : c.isLower = true → Small c := by
  revert hc
  apply ascii_induction
  decide

theorem small_of_moved (hr : r ∈ toLowerRuns) (hn : r.holds n = true) :
    Small (Char.ofNat (r.move n)) := by
  have hlands := lands_of_mem_toLowerRuns hr
  obtain ⟨hcode, hkind⟩ := ShiftRun.lands_move hlands hn
  by_cases hascii : (Char.ofNat (r.move n)).toNat < 0x80
  · exact small_of_isLower hascii (hkind.resolve_left (by omega))
  · obtain ⟨hupper, hlower⟩ := testBit_lor_eq_false.1
      (testBit_eq_false (ListsAgree.lower_disjoint listsAgree) (testBit_targets hr hlands hn))
    have hcapital : isUpper (Char.ofNat (r.move n)) = false := by
      unfold isUpper
      rw [if_neg hascii, hcode, List.any_eq_false]
      intro s hs hholds
      rw [testBit_sources hs hholds] at hupper
      cases hupper
    refine ⟨?_, hcapital, Or.inl (by omega)⟩
    rw [toLower_beyond (by omega) ?_,
      shiftBy_of_find?_none (by rw [hcode]; exact find?_eq_none hlower)]
    intro hdotted
    rw [← Char.ofNat_toNat (Char.ofNat (r.move n)), hdotted,
      (ListsAgree.dotted listsAgree).1] at hcapital
    cases hcapital

theorem mem_toLower (h : y ∈ toLower c) : y = c ∧ toLower c = [c] ∨ Small y := by
  by_cases hc : c.toNat < 0x80
  · unfold toLower at h
    rw [if_pos hc] at h
    rw [List.mem_singleton.1 h]
    revert hc
    apply ascii_induction
    decide
  · by_cases hdotted : c.toNat = 0x130
    · apply Or.inr
      rw [← Char.ofNat_toNat c, hdotted] at h
      exact of_decide_eq_true (List.all_eq_true.1 (ListsAgree.dotted listsAgree).2 y h)
    · have hlower := toLower_beyond (Nat.le_of_not_lt hc) hdotted
      rcases shiftBy_cases toLowerRuns c with ⟨r, hr, hholds, heq⟩ | heq
      · rw [hlower, heq] at h
        rw [List.mem_singleton.1 h]
        exact Or.inr (small_of_moved hr hholds)
      · rw [hlower, heq] at h
        rw [hlower, heq]
        exact Or.inl ⟨List.mem_singleton.1 h, rfl⟩

/-- A small form is its own small form. -/
theorem toLower_of_mem_toLower (h : y ∈ toLower c) : toLower y = [y] := by
  rcases mem_toLower h with ⟨rfl, hown⟩ | hsmall
  · exact hown
  · exact hsmall.1

/-! ### Capital forms -/

theorem toUpper_beyond (h : 0x80 ≤ c.toNat) :
    (∃ e ∈ specialUpper, e.1 = c.toNat ∧ toUpper c = e.2.map Char.ofNat) ∨
      toUpper c = [shiftBy toUpperRuns c] := by
  unfold toUpper
  rw [if_neg (by omega)]
  cases hlookup : specialUpper.lookup c.toNat with
  | none => exact Or.inr rfl
  | some cs =>
    obtain ⟨before, after, heq, -⟩ := List.lookup_eq_some_iff.1 hlookup
    refine Or.inl ⟨(c.toNat, cs), ?_, rfl, rfl⟩
    rw [heq]
    exact List.mem_append_right _ List.mem_cons_self

theorem toUpper_of_not_special (h : 0x80 ≤ c.toNat) (hkey : specialKeys.testBit c.toNat = false) :
    toUpper c = [shiftBy toUpperRuns c] := by
  rcases toUpper_beyond h with ⟨e, he, heq, -⟩ | hshift
  · rw [← heq, testBit_specialKeys he] at hkey
    cases hkey
  · exact hshift

theorem mem_toUpper_beyond (hc : 0x80 ≤ c.toNat) (h : y ∈ toUpper c) :
    (∃ e ∈ specialUpper, ∃ n ∈ e.2, y = Char.ofNat n) ∨
      toUpper c = [y] ∧
        (y = c ∨ ∃ r ∈ toUpperRuns, r.holds c.toNat = true ∧ y = Char.ofNat (r.move c.toNat)) := by
  rcases toUpper_beyond hc with ⟨e, he, -, heq⟩ | heq
  · rw [heq] at h
    obtain ⟨n, hn, rfl⟩ := List.mem_map.1 h
    exact Or.inl ⟨e, he, n, hn, rfl⟩
  · rw [heq] at h
    rw [List.mem_singleton.1 h]
    refine Or.inr ⟨heq, ?_⟩
    rcases shiftBy_cases toUpperRuns c with ⟨r, hr, hholds, hshift⟩ | hshift
    · exact Or.inr ⟨r, hr, hholds, hshift⟩
    · exact Or.inl hshift

theorem specialUpper_code (he : e ∈ specialUpper) (hn : n ∈ e.2) :
    (Char.ofNat n).toNat = n ∧ (0x80 ≤ n ∨ (Char.ofNat n).isUpper = true) := by
  have hentry := List.all_eq_true.1 (ListsAgree.special_lands listsAgree) e he
  have hland := List.all_eq_true.1 (Bool.and_eq_true_iff.1 hentry).2 n hn
  simp only [Bool.and_eq_true, Bool.or_eq_true, decide_eq_true_eq] at hland
  exact ⟨ShiftRun.toNat_ofNat (Or.inl hland.1), hland.2⟩

theorem mem_toUpper (h : y ∈ toUpper c) : y = c ∨ 0x80 ≤ y.toNat ∨ y.isUpper = true := by
  by_cases hc : c.toNat < 0x80
  · unfold toUpper at h
    rw [if_pos hc] at h
    rw [List.mem_singleton.1 h]
    revert hc
    apply ascii_induction
    decide
  · rcases mem_toUpper_beyond (Nat.le_of_not_lt hc) h with
      ⟨e, he, n, hn, rfl⟩ | ⟨-, rfl | ⟨r, hr, hholds, rfl⟩⟩
    · obtain ⟨hcode, hkind⟩ := specialUpper_code he hn
      rw [hcode]
      exact Or.inr hkind
    · exact Or.inl rfl
    · obtain ⟨hcode, hkind⟩ :=
        ShiftRun.lands_move (lands_of_mem_toUpperRuns hr) hholds
      rw [hcode]
      exact Or.inr hkind

/-- A capital is its own capital form. -/
theorem toUpper_of_isUpper (h : isUpper c = true) : toUpper c = [c] := by
  by_cases hc : c.toNat < 0x80
  · revert h
    revert hc
    apply ascii_induction
    decide
  · unfold isUpper at h
    rw [if_neg hc] at h
    obtain ⟨r, hr, hholds⟩ := List.any_eq_true.1 h
    obtain ⟨hkey, hnone⟩ := testBit_lor_eq_false.1
      (testBit_eq_false (ListsAgree.upper_disjoint listsAgree) (testBit_sources hr hholds))
    rw [toUpper_of_not_special (Nat.le_of_not_lt hc) hkey,
      shiftBy_of_find?_none (find?_eq_none hnone)]

/-! ### Small forms of capital forms -/

theorem toLower_of_find? (hfind : toLowerRuns.find? (·.holds n) = some s)
    (hcode : (Char.ofNat n).toNat = n) : toLower (Char.ofNat n) = [Char.ofNat (s.move n)] := by
  have hholds : s.holds n = true := by
    simpa using List.find?_some hfind
  have hstart := List.all_eq_true.1 (ListsAgree.lower_start listsAgree) s
    (List.mem_of_find?_eq_some hfind)
  simp only [Bool.and_eq_true, decide_eq_true_eq, Bool.not_eq_true'] at hstart
  have hbeyond : 0x80 ≤ n := Nat.le_trans hstart.1 (CodeRun.holds_iff.1 hholds).1
  have hdotted : n ≠ 0x130 := by
    rintro rfl
    rw [hstart.2] at hholds
    cases hholds
  rw [toLower_beyond (by rwa [hcode]) (by rwa [hcode]), shiftBy_of_find? (by rwa [hcode]), hcode]

theorem toUpper_of_find? (hfind : toUpperRuns.find? (·.holds n) = some r)
    (hcode : (Char.ofNat n).toNat = n) : toUpper (Char.ofNat n) = [Char.ofNat (r.move n)] := by
  have hholds : r.holds n = true := by
    simpa using List.find?_some hfind
  have hmem := List.mem_of_find?_eq_some hfind
  have hstart := of_decide_eq_true (List.all_eq_true.1 (ListsAgree.upper_start listsAgree) r hmem)
  have hbeyond : 0x80 ≤ n := Nat.le_trans hstart (CodeRun.holds_iff.1 hholds).1
  have hkey := testBit_eq_false (ListsAgree.special_disjoint listsAgree)
    (testBit_sources (List.mem_map_of_mem hmem) hholds)
  rw [toUpper_of_not_special (by rwa [hcode]) (by rwa [hcode]), shiftBy_of_find? (by rwa [hcode]),
    hcode]

theorem capitalize_singleton (c : Char) : NamingCase.capitalize [c] = toUpper c :=
  List.append_nil _

theorem capitalize_toLower_ascii (hc : c.toNat < 0x80) :
    c.isUpper = true → NamingCase.capitalize (toLower c) = [c] := by
  revert hc
  apply ascii_induction
  decide

theorem capitalize_toLower_of_landing (hcode : (Char.ofNat n).toNat = n)
    (h : (landing toLowerRuns n).bind (landing toUpperRuns) = some n) :
    NamingCase.capitalize (toLower (Char.ofNat n)) = [Char.ofNat n] := by
  obtain ⟨m, hlower, hupper⟩ := Option.bind_eq_some_iff.1 h
  obtain ⟨s, hs, rfl⟩ := landing_eq_some hlower
  obtain ⟨r, hr, hback⟩ := landing_eq_some hupper
  have hholds : s.holds n = true := by
    simpa using List.find?_some hs
  have hlands := lands_of_mem_toLowerRuns (List.mem_of_find?_eq_some hs)
  rw [toLower_of_find? hs hcode, capitalize_singleton,
    toUpper_of_find? hr (ShiftRun.lands_move hlands hholds).1, hback]

theorem capitalize_toLower_of_not_cased (hcode : (Char.ofNat n).toNat = n) (hbeyond : 0x80 ≤ n)
    (h : cased.testBit n = false) :
    NamingCase.capitalize (toLower (Char.ofNat n)) = [Char.ofNat n] := by
  unfold cased at h
  rw [testBit_lor_eq_false, testBit_lor_eq_false, testBit_lor_eq_false] at h
  obtain ⟨⟨hdot, hlower⟩, hkey, hupper⟩ := h
  have hdotted : n ≠ 0x130 := by
    intro heq
    rw [heq, testBit_shifted (Nat.le_refl _) (by rfl)] at hdot
    cases hdot
  rw [toLower_beyond (by rwa [hcode]) (by rwa [hcode]),
    shiftBy_of_find?_none (by rw [hcode]; exact find?_eq_none hlower), capitalize_singleton,
    toUpper_of_not_special (by rwa [hcode]) (by rw [hcode]; exact hkey),
    shiftBy_of_find?_none (by rw [hcode]; exact find?_eq_none hupper)]

theorem capitalize_toLower_of_restored (h : restored n = true) (hcode : (Char.ofNat n).toNat = n)
    (hkind : 0x80 ≤ n ∨ (Char.ofNat n).isUpper = true) :
    NamingCase.capitalize (toLower (Char.ofNat n)) = [Char.ofNat n] := by
  by_cases hascii : n < 0x80
  · exact capitalize_toLower_ascii (by rwa [hcode]) (hkind.resolve_left (by omega))
  · simp only [restored, Bool.or_eq_true, decide_eq_true_eq, hascii, false_or, beq_iff_eq,
      Bool.not_eq_true'] at h
    rcases h with hlanding | hplain
    · exact capitalize_toLower_of_landing hcode hlanding
    · exact capitalize_toLower_of_not_cased hcode (Nat.le_of_not_lt hascii) hplain

/-- What a small letter becomes as a capital is found again by way of its own small form. -/
theorem capitalize_toLower_of_mem_toUpper {x : Char} (hx : toLower x = [x]) (hy : y ∈ toUpper x) :
    NamingCase.capitalize (toLower y) = [y] := by
  by_cases hc : x.toNat < 0x80
  · unfold toUpper at hy
    rw [if_pos hc] at hy
    rw [List.mem_singleton.1 hy]
    revert hc
    apply ascii_induction
    decide
  · rcases mem_toUpper_beyond (Nat.le_of_not_lt hc) hy with
      ⟨e, he, n, hn, rfl⟩ | ⟨hown, rfl | ⟨r, hr, hholds, rfl⟩⟩
    · obtain ⟨hcode, hkind⟩ := specialUpper_code he hn
      have hvalue : n ∈ (specialUpper.flatMap (·.2)).eraseDups :=
        List.mem_eraseDups.2 (List.mem_flatMap.2 ⟨e, he, hn⟩)
      exact capitalize_toLower_of_restored
        (List.all_eq_true.1 (ListsAgree.special_restored listsAgree) n hvalue) hcode hkind
    · rw [hx, capitalize_singleton, hown]
    · have hlands := lands_of_mem_toUpperRuns hr
      obtain ⟨hcode, hkind⟩ := ShiftRun.lands_move hlands hholds
      have hcheck := List.all_eq_true.1 (ListsAgree.upper_restored listsAgree) r hr
      simp only [Bool.or_eq_true, Bool.and_eq_true, decide_eq_true_eq] at hcheck
      rcases hcheck with hundo | ⟨⟨hshort, hfirst⟩, hlast⟩
      · obtain ⟨s, hfind, hback⟩ := ShiftRun.find?_of_undone hundo hlands hholds
        rw [toLower_of_find? hfind hcode, hback, Char.ofNat_toNat, capitalize_singleton, hown]
      · have hends : x.toNat = r.first ∨ x.toNat = r.last := by
          have := CodeRun.holds_iff.1 hholds
          omega
        apply capitalize_toLower_of_restored ?_ hcode hkind
        rcases hends with heq | heq
        · rwa [heq]
        · rwa [heq]

/-! ### What a change of case leaves alone -/

theorem eq_of_mem_toLower (h : y ∈ toLower c) (hascii : y.toNat < 0x80)
    (hletter : y.isAlpha = false) : y = c := by
  rcases mem_toLower h with ⟨rfl, -⟩ | ⟨-, -, hkind⟩
  · rfl
  · rw [(Bool.or_eq_false_iff.1 hletter).2] at hkind
    exact absurd (hkind.resolve_right Bool.false_ne_true) (by omega)

theorem eq_of_mem_toUpper (h : y ∈ toUpper c) (hascii : y.toNat < 0x80)
    (hletter : y.isAlpha = false) : y = c := by
  rcases mem_toUpper h with rfl | hkind
  · rfl
  · rw [(Bool.or_eq_false_iff.1 hletter).1] at hkind
    exact absurd (hkind.resolve_right Bool.false_ne_true) (by omega)

theorem toLower_ne_nil (c : Char) : toLower c ≠ [] := by
  unfold toLower
  split
  · simp
  · split <;> simp

theorem toUpper_ne_nil (c : Char) : toUpper c ≠ [] := by
  by_cases hc : c.toNat < 0x80
  · unfold toUpper
    rw [if_pos hc]
    simp
  · rcases toUpper_beyond (Nat.le_of_not_lt hc) with ⟨e, he, -, heq⟩ | heq
    · have hentry := List.all_eq_true.1 (ListsAgree.special_lands listsAgree) e he
      simpa [heq] using (Bool.and_eq_true_iff.1 hentry).1
    · simp [heq]

end TwigStyle.Text
