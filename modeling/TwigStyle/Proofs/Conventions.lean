import TwigStyle.Proofs.LetterCase

/-!
# A name written by a convention, read again

A convention writes a name from its words, and reading the result again need not give the same
words: a capital is a word of its own only where its neighbours say so, and the convention has
changed them.  So what a convention asks for does not always follow the convention.  `a_b_c` is
`aBC` in camel case, which is read as `a`, `bc`; and a capital without a small form, kept by snake
case behind a small letter, is parted from it the second time.

`Settled` says of a written text that the reader finds the words where they were, and
`convert_convert_iff` that these are the texts which are written again as they are.
-/

namespace TwigStyle

namespace NamingCase

variable {c p y : Char} {current name t text us w : List Char} {ws : List (List Char)}
  {convention : NamingCase}

/-- Does a word start at `c`, between `p` and the text `t`? -/
def starts (p c : Char) (t : List Char) : Bool := Text.isUpper c && startsWord (some p) t.head?

/-- Is `c` read between `p` and `v` as the convention has written it?  In snake case no word starts
    there; in the others one starts if the character has another small form. -/
def Kept : NamingCase → Char → Char → List Char → Prop
  | snake, p, c, v => starts p c v = false
  | camel, p, c, v | pascal, p, c, v => Text.toLower c ≠ [c] → starts p c v = true

/-- Are all characters behind another one than the underscore read as they were written? -/
def Settled (convention : NamingCase) (text : List Char) : Prop :=
  ∀ u p c v, text = u ++ p :: c :: v → p ≠ '_' → convention.Kept p c v

/-- How a word goes on behind another one. -/
def next : NamingCase → List Char → List Char
  | snake, w => '_' :: w
  | camel, w | pascal, w => capitalize w

/-- How the first word is written. -/
def first : NamingCase → List Char → List Char
  | snake, w | camel, w => w
  | pascal, w => capitalize w

/-- What becomes of one character between `p` and `t`. -/
def piece (convention : NamingCase) (p c : Char) (t : List Char) : List Char :=
  if starts p c t then convention.next (Text.toLower c) else Text.toLower c

/-- What becomes of a text behind `p`, character by character. -/
def respell (convention : NamingCase) (p : Char) : List Char → List Char
  | [] => []
  | c :: t => convention.piece p c t ++ respell convention c t

/-- A text that the convention reads without dropping an underscore. -/
def Legible : NamingCase → List Char → Prop
  | snake, t => ∀ u v, t = u ++ '_' :: v → v.head?.any (· ≠ '_') = true
  | camel, t | pascal, t => '_' ∉ t

/-! ### Words -/

theorem wordsFrom_ne_nil (h : current ≠ []) (p : Option Char) (t : List Char) :
    wordsFrom current p t ≠ [] := by
  induction t generalizing current p with
  | nil => simp [wordsFrom, h]
  | cons c t ih =>
    unfold wordsFrom
    split
    · simp [h]
    · split
      · simp
      · apply ih
        simp [h]

theorem starts_underscore (p : Char) (t : List Char) : starts p '_' t = false := by
  unfold starts
  rw [show Text.isUpper '_' = false by decide]
  rfl

theorem starts_of_underscore (c : Char) (t : List Char) : starts '_' c t = false := by
  have hupper : Text.isUpper '_' = false := by decide
  have hlower : Text.isLower '_' = false := by decide
  simp [starts, startsWord, hupper, hlower]

theorem wordsFrom_cons (h : current ≠ []) (p : Char) (hc : c ≠ '_') (t : List Char) :
    wordsFrom current (some p) (c :: t) =
      if starts p c t then current :: wordsFrom (Text.toLower c) (some c) t
      else wordsFrom (current ++ Text.toLower c) (some c) t := by
  rw [wordsFrom, if_neg (by simpa using hc)]
  simp [starts, h]

theorem wordsFrom_nil_cons (p : Option Char) (hc : c ≠ '_') (t : List Char) :
    wordsFrom [] p (c :: t) = wordsFrom (Text.toLower c) (some c) t := by
  rw [wordsFrom, if_neg (by simpa using hc)]
  simp

theorem mem_wordsFrom {q : Char → Prop} (hq : ∀ c ∈ t, c ≠ '_' → ∀ y ∈ Text.toLower c, q y)
    (hcurrent : ∀ y ∈ current, q y) (p : Option Char) (hw : w ∈ wordsFrom current p t) :
    w ≠ [] ∧ ∀ y ∈ w, q y := by
  induction t generalizing current p with
  | nil =>
    unfold wordsFrom at hw
    split at hw
    · exact absurd hw List.not_mem_nil
    next hne =>
      rw [List.mem_singleton.1 hw]
      exact ⟨by simpa using hne, hcurrent⟩
  | cons c t ih =>
    have htail : ∀ c ∈ t, c ≠ '_' → ∀ y ∈ Text.toLower c, q y :=
      fun d hd => hq d (List.mem_cons_of_mem c hd)
    have hnone : ∀ y ∈ ([] : List Char), q y := fun y hy => absurd hy List.not_mem_nil
    unfold wordsFrom at hw
    split at hw
    next hc =>
      split at hw
      · exact ih htail hnone _ hw
      next hne =>
        rcases List.mem_cons.1 hw with rfl | hw
        · exact ⟨by simpa using hne, hcurrent⟩
        · exact ih htail hnone _ hw
    next hc =>
      have hsmall : ∀ y ∈ Text.toLower c, q y := hq c List.mem_cons_self (by simpa using hc)
      split at hw
      next hstart =>
        rcases List.mem_cons.1 hw with rfl | hw
        · refine ⟨?_, hcurrent⟩
          intro hempty
          simp [hempty] at hstart
        · exact ih htail hsmall _ hw
      next =>
        apply ih htail ?_ _ hw
        intro y hy
        exact (List.mem_append.1 hy).elim (hcurrent y) (hsmall y)

theorem capitalize_append (h : w ≠ []) (v : List Char) :
    capitalize (w ++ v) = capitalize w ++ v := by
  cases w with
  | nil => exact absurd rfl h
  | cons c w => simp [capitalize]

/-! ### Reading a text and writing it again -/

theorem flatMap_capitalize_wordsFrom (h : current ≠ []) (p : Char) (ht : '_' ∉ t) :
    (wordsFrom current (some p) t).flatMap capitalize =
      capitalize current ++ respell pascal p t := by
  induction t generalizing current p with
  | nil => simp [wordsFrom, respell, h]
  | cons c t ih =>
    have hc : c ≠ '_' := fun heq => ht (heq ▸ List.mem_cons_self)
    have htail : '_' ∉ t := fun hmem => ht (List.mem_cons_of_mem c hmem)
    rw [wordsFrom_cons h p hc, respell, piece]
    split
    · rw [List.flatMap_cons, ih (Text.toLower_ne_nil c) c htail]
      rfl
    · rw [ih (by simp [h]) c htail, capitalize_append h, List.append_assoc]

theorem respell_camel (p : Char) (t : List Char) : respell camel p t = respell pascal p t := by
  induction t generalizing p with
  | nil => rfl
  | cons c t ih =>
    rw [respell, respell, ih c]
    rfl

theorem join_camel_wordsFrom (h : current ≠ []) (p : Char) (ht : '_' ∉ t) :
    join camel (wordsFrom current (some p) t) = current ++ respell camel p t := by
  induction t generalizing current p with
  | nil => simp [wordsFrom, respell, h, join]
  | cons c t ih =>
    have hc : c ≠ '_' := fun heq => ht (heq ▸ List.mem_cons_self)
    have htail : '_' ∉ t := fun hmem => ht (List.mem_cons_of_mem c hmem)
    rw [wordsFrom_cons h p hc, respell, piece]
    split
    · rw [join, flatMap_capitalize_wordsFrom (Text.toLower_ne_nil c) c htail, respell_camel]
      rfl
    · rw [ih (by simp [h]) c htail, List.append_assoc]

theorem exists_cons_of_head?_any {q : Char → Bool} (h : t.head?.any q = true) :
    ∃ c t', t = c :: t' ∧ q c = true := by
  cases t with
  | nil => exact absurd h Bool.false_ne_true
  | cons c t => exact ⟨c, t, rfl, h⟩

theorem intercalate_cons (h : ws ≠ []) :
    List.intercalate ['_'] (w :: ws) = w ++ '_' :: List.intercalate ['_'] ws := by
  cases ws with
  | nil => exact absurd rfl h
  | cons v ws => rw [List.intercalate_cons_cons, List.append_assoc, List.singleton_append]

theorem join_snake_wordsFrom (h : current = [] → p = '_' ∧ t.head?.any (· ≠ '_') = true)
    (ht : Legible snake t) :
    join snake (wordsFrom current (some p) t) = current ++ respell snake p t := by
  induction t generalizing current p with
  | nil =>
    have hne : current ≠ [] := fun hnil => by simpa using (h hnil).2
    simp [wordsFrom, respell, hne, join, List.intercalate]
  | cons c t ih =>
    have htail : Legible snake t := fun u v heq => ht (c :: u) v (by rw [heq]; rfl)
    have hsmall : Text.toLower c = [] → c = '_' ∧ t.head?.any (· ≠ '_') = true :=
      fun hnil => absurd hnil (Text.toLower_ne_nil c)
    by_cases hc : c = '_'
    · subst hc
      have hne : current ≠ [] := fun hnil => by simpa using (h hnil).2
      have hnext : t.head?.any (· ≠ '_') = true := ht [] t rfl
      have hwords : wordsFrom current (some p) ('_' :: t) = current :: wordsFrom [] (some '_') t := by
        simp [wordsFrom, hne]
      have hmore : wordsFrom [] (some '_') t ≠ [] := by
        obtain ⟨d, t', rfl, hd⟩ := exists_cons_of_head?_any hnext
        rw [wordsFrom_nil_cons _ (by simpa using hd)]
        exact wordsFrom_ne_nil (Text.toLower_ne_nil d) _ _
      have hpiece : piece snake p '_' t = ['_'] := by
        rw [piece, starts_underscore]
        decide
      rw [hwords, join, intercalate_cons hmore, respell, hpiece]
      exact congrArg (current ++ '_' :: ·) (ih (fun _ => ⟨rfl, hnext⟩) htail)
    · by_cases hne : current = []
      · obtain ⟨rfl, -⟩ := h hne
        rw [hne, wordsFrom_nil_cons _ hc, ih hsmall htail, respell, piece, starts_of_underscore]
        rfl
      · rw [wordsFrom_cons hne p hc, respell, piece]
        split
        · rw [join, intercalate_cons (wordsFrom_ne_nil (Text.toLower_ne_nil c) _ _)]
          exact congrArg (current ++ '_' :: ·) (ih hsmall htail)
        · rw [ih (fun hnil => absurd (List.append_eq_nil_iff.1 hnil).1 hne) htail,
            List.append_assoc]

theorem join_wordsFrom (convention : NamingCase) (h : current ≠ []) (p : Char)
    (ht : convention.Legible t) : convention.join (wordsFrom current (some p) t) =
      convention.first current ++ convention.respell p t := by
  cases convention with
  | snake => exact join_snake_wordsFrom (fun hnil => absurd hnil h) ht
  | camel => exact join_camel_wordsFrom h p ht
  | pascal => exact flatMap_capitalize_wordsFrom h p ht

theorem piece_ne_nil (convention : NamingCase) (p c : Char) (t : List Char) :
    convention.piece p c t ≠ [] := by
  have hcapital : capitalize (Text.toLower c) ≠ [] := by
    cases hlower : Text.toLower c with
    | nil => exact absurd hlower (Text.toLower_ne_nil c)
    | cons d w => simp [capitalize, Text.toUpper_ne_nil]
  unfold piece
  split
  · cases convention with
    | snake => exact List.cons_ne_nil _ _
    | camel => exact hcapital
    | pascal => exact hcapital
  · exact Text.toLower_ne_nil c

theorem length_le_respell (convention : NamingCase) (p : Char) (t : List Char) :
    t.length ≤ (convention.respell p t).length := by
  induction t generalizing p with
  | nil => exact Nat.zero_le _
  | cons c t ih =>
    have hpiece := List.length_pos_iff.2 (convention.piece_ne_nil p c t)
    have := ih c
    simp only [respell, List.length_cons, List.length_append]
    omega

/-- No character becomes none, so a text that is respelled as it is has every one of its characters
    respelled as it is. -/
theorem respell_eq_iff (convention : NamingCase) (p : Char) (t : List Char) :
    convention.respell p t = t ↔
      ∀ u q c v, p :: t = u ++ q :: c :: v → convention.piece q c v = [c] := by
  induction t generalizing p with
  | nil =>
    refine ⟨fun _ u q c v heq => ?_, fun _ => rfl⟩
    have hlength := congrArg List.length heq
    simp only [List.length_append, List.length_cons, List.length_nil] at hlength
    omega
  | cons c t ih =>
    constructor
    · intro h u q d v heq
      have hsplit : convention.piece p c t ++ convention.respell c t = [c] ++ t := h
      have hlength := congrArg List.length hsplit
      have hpiece := List.length_pos_iff.2 (convention.piece_ne_nil p c t)
      have hrest := convention.length_le_respell c t
      simp only [List.length_append, List.length_singleton] at hlength
      obtain ⟨hhead, htail⟩ := List.append_inj hsplit (by rw [List.length_singleton]; omega)
      cases u with
      | nil =>
        obtain ⟨rfl, rfl, rfl⟩ : p = q ∧ c = d ∧ t = v := by simpa using heq
        exact hhead
      | cons a u => exact (ih c).1 htail u q d v (List.cons.inj heq).2
    · intro h
      rw [respell, h [] p c t rfl, (ih c).2 fun u q d v heq => h (p :: u) q d v (by rw [heq]; rfl)]
      rfl

/-! ### What a convention writes -/

/-- A character of a word: small, and no underscore. -/
def Plain (c : Char) : Prop := Text.toLower c = [c] ∧ c ≠ '_'

/-- A character that the convention may have written. -/
def Spelled : NamingCase → Char → Prop
  | snake, c => Text.toLower c = [c]
  | camel, c | pascal, c => Text.toLower c = [c] ∨ capitalize (Text.toLower c) = [c]

/-- A text as the convention writes it. -/
structure Spells (convention : NamingCase) (text : List Char) : Prop where
  legible : convention.Legible text
  spelled : ∀ c ∈ text, convention.Spelled c
  start : ∀ c t, text = c :: t → c ≠ '_' ∧ convention.first (Text.toLower c) = [c]

theorem plain_of_mem_toLower (hc : c ≠ '_') (hy : y ∈ Text.toLower c) : Plain y := by
  refine ⟨Text.toLower_of_mem_toLower hy, ?_⟩
  rintro rfl
  exact hc (Text.eq_of_mem_toLower hy (by decide) (by decide)).symm

theorem mem_words (hw : w ∈ words name) : w ≠ [] ∧ ∀ y ∈ w, Plain y :=
  mem_wordsFrom (fun _ _ hc _ hy => plain_of_mem_toLower hc hy)
    (fun _ hy => absurd hy List.not_mem_nil) none hw

theorem mem_capitalize (h : ∀ y ∈ w, Plain y) (hy : y ∈ capitalize w) :
    y ≠ '_' ∧ (Text.toLower y = [y] ∨ capitalize (Text.toLower y) = [y]) := by
  cases w with
  | nil => exact absurd hy List.not_mem_nil
  | cons x w =>
    have hx := h x List.mem_cons_self
    rcases List.mem_append.1 hy with hy | hy
    · refine ⟨?_, Or.inr (Text.capitalize_toLower_of_mem_toUpper hx.1 hy)⟩
      rintro rfl
      exact hx.2 (Text.eq_of_mem_toUpper hy (by decide) (by decide)).symm
    · have hplain := h y (List.mem_cons_of_mem x hy)
      exact ⟨hplain.2, Or.inl hplain.1⟩

theorem legible_cons (h : Legible snake t) (hc : c = '_' → t.head?.any (· ≠ '_') = true) :
    Legible snake (c :: t) := by
  intro u v heq
  cases u with
  | nil =>
    obtain ⟨rfl, rfl⟩ := List.cons.inj heq
    exact hc rfl
  | cons a u => exact h u v (List.cons.inj heq).2

theorem legible_append (hw : ∀ y ∈ w, Plain y) (h : Legible snake t) : Legible snake (w ++ t) := by
  induction w with
  | nil => exact h
  | cons c w ih =>
    apply legible_cons (ih fun y hy => hw y (List.mem_cons_of_mem c hy))
    intro hc
    exact absurd hc (hw c List.mem_cons_self).2

theorem head?_join_snake (hw : w ≠ []) (ws : List (List Char)) :
    (join snake (w :: ws)).head? = w.head? := by
  cases w with
  | nil => exact absurd rfl hw
  | cons c w =>
    cases ws with
    | nil => simp [join, List.intercalate]
    | cons v ws =>
      rw [join, intercalate_cons (List.cons_ne_nil v ws)]
      rfl

theorem legible_join_snake (h : ∀ w ∈ ws, w ≠ [] ∧ ∀ y ∈ w, Plain y) :
    Legible snake (join snake ws) := by
  induction ws with
  | nil =>
    intro u v heq
    simp [join] at heq
  | cons w ws ih =>
    have hw := h w List.mem_cons_self
    have hws : ∀ v ∈ ws, v ≠ [] ∧ ∀ y ∈ v, Plain y := fun v hv => h v (List.mem_cons_of_mem w hv)
    cases ws with
    | nil =>
      have hone : join snake [w] = w ++ [] := by simp [join, List.intercalate]
      rw [hone]
      apply legible_append hw.2
      intro u v heq
      simp at heq
    | cons v ws =>
      rw [join, intercalate_cons (List.cons_ne_nil v ws)]
      apply legible_append hw.2
      apply legible_cons (ih hws)
      intro _
      have hv := hws v List.mem_cons_self
      change (join snake (v :: ws)).head?.any (· ≠ '_') = true
      rw [head?_join_snake hv.1]
      cases v with
      | nil => exact absurd rfl hv.1
      | cons c v => simpa using (hv.2 c List.mem_cons_self).2

theorem mem_join_snake (hy : y ∈ join snake ws) : y = '_' ∨ ∃ w ∈ ws, y ∈ w := by
  induction ws with
  | nil => simp [join] at hy
  | cons w ws ih =>
    cases ws with
    | nil =>
      have hone : join snake [w] = w := by simp [join, List.intercalate]
      exact Or.inr ⟨w, List.mem_cons_self, hone ▸ hy⟩
    | cons v ws =>
      rw [join, intercalate_cons (List.cons_ne_nil v ws)] at hy
      rcases List.mem_append.1 hy with hy | hy
      · exact Or.inr ⟨w, List.mem_cons_self, hy⟩
      · rcases List.mem_cons.1 hy with hy | hy
        · exact Or.inl hy
        · rcases ih hy with h | ⟨x, hx, hyx⟩
          · exact Or.inl h
          · exact Or.inr ⟨x, List.mem_cons_of_mem w hx, hyx⟩

section

variable (h : ∀ w ∈ ws, w ≠ [] ∧ ∀ y ∈ w, Plain y)
include h

theorem spells_join_snake : Spells snake (join snake ws) := by
  refine ⟨legible_join_snake h, ?_, ?_⟩
  · intro y hy
    rcases mem_join_snake hy with rfl | ⟨w, hw, hyw⟩
    · change Text.toLower '_' = ['_']
      decide
    · exact ((h w hw).2 y hyw).1
  · intro c t heq
    cases ws with
    | nil => simp [join] at heq
    | cons w ws =>
      have hw := h w List.mem_cons_self
      have hhead : w.head? = some c := by rw [← head?_join_snake hw.1 ws, heq]; rfl
      have hplain := hw.2 c (List.mem_of_head? hhead)
      exact ⟨hplain.2, hplain.1⟩

theorem mem_flatMap_capitalize (hy : y ∈ ws.flatMap capitalize) :
    y ≠ '_' ∧ (Text.toLower y = [y] ∨ capitalize (Text.toLower y) = [y]) := by
  obtain ⟨w, hw, hyw⟩ := List.mem_flatMap.1 hy
  exact mem_capitalize (h w hw).2 hyw

theorem spells_join_camel : Spells camel (join camel ws) := by
  cases ws with
  | nil =>
    refine ⟨List.not_mem_nil, fun c hc => absurd hc List.not_mem_nil, ?_⟩
    intro c t heq
    exact absurd heq.symm (List.cons_ne_nil c t)
  | cons w ws =>
    have hw := h w List.mem_cons_self
    have hall : ∀ y ∈ join camel (w :: ws),
        y ≠ '_' ∧ (Text.toLower y = [y] ∨ capitalize (Text.toLower y) = [y]) := by
      intro y hy
      rcases List.mem_append.1 hy with hy | hy
      · exact ⟨(hw.2 y hy).2, Or.inl (hw.2 y hy).1⟩
      · exact mem_flatMap_capitalize (fun v hv => h v (List.mem_cons_of_mem w hv)) hy
    refine ⟨fun hmem => (hall '_' hmem).1 rfl, fun c hc => (hall c hc).2, ?_⟩
    intro c t heq
    cases w with
    | nil => exact absurd rfl hw.1
    | cons d w =>
      obtain ⟨rfl, -⟩ := List.cons.inj heq
      have hplain := hw.2 d List.mem_cons_self
      exact ⟨hplain.2, hplain.1⟩

theorem spells_join_pascal : Spells pascal (join pascal ws) := by
  have hall : ∀ y ∈ join pascal ws,
      y ≠ '_' ∧ (Text.toLower y = [y] ∨ capitalize (Text.toLower y) = [y]) :=
    fun y hy => mem_flatMap_capitalize h hy
  refine ⟨fun hmem => (hall '_' hmem).1 rfl, fun c hc => (hall c hc).2, ?_⟩
  intro c t heq
  refine ⟨(hall c (heq ▸ List.mem_cons_self)).1, ?_⟩
  cases ws with
  | nil => exact absurd heq.symm (List.cons_ne_nil c t)
  | cons w ws =>
    have hw := h w List.mem_cons_self
    cases w with
    | nil => exact absurd rfl hw.1
    | cons x w =>
      -- the first word begins with what its first letter becomes as a capital
      have hmem : c ∈ Text.toUpper x := by
        cases hupper : Text.toUpper x with
        | nil => exact absurd hupper (Text.toUpper_ne_nil x)
        | cons d us =>
          simp only [join, List.flatMap_cons, capitalize, hupper, List.cons_append] at heq
          rw [(List.cons.inj heq).1]
          exact List.mem_cons_self
      exact Text.capitalize_toLower_of_mem_toUpper (hw.2 x List.mem_cons_self).1 hmem

end

theorem spells_join_words (convention : NamingCase) (name : List Char) :
    convention.Spells (convention.join (words name)) := by
  cases convention with
  | snake => exact spells_join_snake fun w hw => mem_words hw
  | camel => exact spells_join_camel fun w hw => mem_words hw
  | pascal => exact spells_join_pascal fun w hw => mem_words hw

/-! ### Writing what was written -/

theorem capitalize_of_starts (hstart : starts p c t = true)
    (h : Text.toLower c = [c] ∨ capitalize (Text.toLower c) = [c]) :
    capitalize (Text.toLower c) = [c] := by
  rcases h with hlower | hcapital
  · have hupper : Text.isUpper c = true := (Bool.and_eq_true_iff.1 hstart).1
    simp [hlower, capitalize, Text.toUpper_of_isUpper hupper]
  · exact hcapital

theorem piece_eq_iff (convention : NamingCase) (p : Char) (t : List Char)
    (hc : convention.Spelled c) : convention.piece p c t = [c] ↔ convention.Kept p c t := by
  have hcapital (h : Text.toLower c = [c] ∨ capitalize (Text.toLower c) = [c]) :
      (if starts p c t then capitalize (Text.toLower c) else Text.toLower c) = [c] ↔
        (Text.toLower c ≠ [c] → starts p c t = true) := by
    split
    next hstart => exact ⟨fun _ _ => hstart, fun _ => capitalize_of_starts hstart h⟩
    next hstart =>
      constructor
      · intro heq hne
        exact absurd heq hne
      · intro himp
        exact Classical.byContradiction fun hne => hstart (himp hne)
  cases convention with
  | snake =>
    have hlower : Text.toLower c = [c] := hc
    unfold piece Kept next
    rw [hlower]
    cases hstart : starts p c t <;> simp [hstart]
  | camel => exact hcapital hc
  | pascal => exact hcapital hc

theorem join_words_eq_iff (h : convention.Spells text) : convention.join (words text) = text ↔
      ∀ u p c v, text = u ++ p :: c :: v → convention.Kept p c v := by
  cases text with
  | nil =>
    refine ⟨fun _ u p c v heq => ?_, fun _ => ?_⟩
    · simp at heq
    · cases convention <;> rfl
  | cons p t =>
    obtain ⟨hp, hfirst⟩ := h.start p t rfl
    have htail : convention.Legible t := by
      cases convention with
      | snake => exact fun u v heq => h.legible (p :: u) v (by rw [heq]; rfl)
      | camel => exact fun hmem => h.legible (List.mem_cons_of_mem p hmem)
      | pascal => exact fun hmem => h.legible (List.mem_cons_of_mem p hmem)
    have hwritten : convention.join (words (p :: t)) = p :: convention.respell p t := by
      rw [words, wordsFrom_nil_cons _ hp,
        join_wordsFrom convention (Text.toLower_ne_nil p) p htail, hfirst]
      rfl
    rw [hwritten, List.cons_inj_right, respell_eq_iff]
    have hmem : ∀ u q c v, p :: t = u ++ q :: c :: v → c ∈ p :: t := by
      intro u q c v heq
      simp [heq]
    constructor
    · intro hpiece u q c v heq
      exact (convention.piece_eq_iff q v (h.spelled c (hmem u q c v heq))).1 (hpiece u q c v heq)
    · intro hkept u q c v heq
      exact (convention.piece_eq_iff q v (h.spelled c (hmem u q c v heq))).2 (hkept u q c v heq)

theorem kept_of_underscore {u v : List Char} (h : convention.Spells text)
    (heq : text = u ++ '_' :: c :: v) : convention.Kept '_' c v := by
  have hmem : '_' ∈ text := by simp [heq]
  cases convention with
  | snake => exact starts_of_underscore c v
  | camel => exact absurd hmem h.legible
  | pascal => exact absurd hmem h.legible

theorem settled_append_iff (hus : ∀ c ∈ us, c = '_') (h : convention.Spells text) :
    convention.Settled (us ++ text) ↔
      ∀ u p c v, text = u ++ p :: c :: v → convention.Kept p c v := by
  constructor
  · intro hsettled u p c v heq
    by_cases hp : p = '_'
    · subst hp
      exact kept_of_underscore h heq
    · exact hsettled (us ++ u) p c v (by rw [heq, List.append_assoc]) hp
  · intro hkept u p c v heq hp
    rcases List.append_eq_append_iff.1 heq with ⟨u', rfl, htext⟩ | ⟨w, rfl, hrest⟩
    · exact hkept u' p c v htext
    · -- the cut is not among the leading underscores, as `p` is none
      cases w with
      | nil => exact hkept [] p c v hrest.symm
      | cons d w =>
        obtain ⟨rfl, -⟩ := List.cons.inj hrest
        exact absurd (hus p (by simp)) hp

theorem convert_append (convention : NamingCase) (hus : ∀ c ∈ us, c = '_')
    (htext : ∀ c t, text = c :: t → c ≠ '_') :
    convention.convert (us ++ text) = us ++ convention.join (words text) := by
  have hall : ∀ c ∈ us, (c == '_') = true := fun c hc => beq_iff_eq.2 (hus c hc)
  have hnone : text.takeWhile (· == '_') = [] ∧ text.dropWhile (· == '_') = text := by
    cases text with
    | nil => exact ⟨rfl, rfl⟩
    | cons c t => simp [htext c t rfl]
  rw [convert, List.takeWhile_append_of_pos hall, List.dropWhile_append_of_pos hall, hnone.1,
    hnone.2, List.append_nil]

theorem eq_underscore_of_mem_takeWhile (hc : c ∈ name.takeWhile (· == '_')) : c = '_' := by
  have := List.all_eq_true.1 List.all_takeWhile c hc
  exact beq_iff_eq.1 this

theorem mem_join (hy : y ∈ convention.join ws) :
    y = '_' ∨ ∃ w ∈ ws, y ∈ w ∨ ∃ x ∈ w, y ∈ Text.toUpper x := by
  have hcapitals {ws : List (List Char)} (hy : y ∈ ws.flatMap capitalize) :
      ∃ w ∈ ws, y ∈ w ∨ ∃ x ∈ w, y ∈ Text.toUpper x := by
    obtain ⟨w, hw, hyw⟩ := List.mem_flatMap.1 hy
    refine ⟨w, hw, ?_⟩
    cases w with
    | nil => exact absurd hyw List.not_mem_nil
    | cons x w =>
      rcases List.mem_append.1 hyw with hyw | hyw
      · exact Or.inr ⟨x, List.mem_cons_self, hyw⟩
      · exact Or.inl (List.mem_cons_of_mem x hyw)
  cases convention with
  | snake =>
    rcases mem_join_snake hy with heq | ⟨w, hw, hyw⟩
    · exact Or.inl heq
    · exact Or.inr ⟨w, hw, Or.inl hyw⟩
  | camel =>
    cases ws with
    | nil => exact absurd hy List.not_mem_nil
    | cons w ws =>
      apply Or.inr
      rcases List.mem_append.1 hy with hy | hy
      · exact ⟨w, List.mem_cons_self, Or.inl hy⟩
      · obtain ⟨v, hv, hyv⟩ := hcapitals hy
        exact ⟨v, List.mem_cons_of_mem w hv, hyv⟩
  | pascal => exact Or.inr (hcapitals hy)

theorem mem_of_mem_convert (hascii : c.toNat < 0x80) (hletter : c.isAlpha = false) (hc : c ≠ '_')
    (h : c ∈ convention.convert name) : c ∈ name := by
  rcases List.mem_append.1 h with h | h
  · exact (List.takeWhile_prefix _).subset h
  · have hwords : ∀ w ∈ words (name.dropWhile (· == '_')), ∀ y ∈ w, y = c → c ∈ name := by
      intro w hw
      refine (mem_wordsFrom ?_ (fun _ hy => absurd hy List.not_mem_nil) none hw).2
      rintro d hd - y hy rfl
      rw [Text.eq_of_mem_toLower hy hascii hletter]
      exact (List.dropWhile_suffix _).subset hd
    rcases mem_join h with heq | ⟨w, hw, hcw | ⟨x, hx, hcx⟩⟩
    · exact absurd heq hc
    · exact hwords w hw c hcw rfl
    · exact hwords w hw x hx (Text.eq_of_mem_toUpper hcx hascii hletter).symm

theorem settled_snake (h : ∀ c ∈ name, Text.isUpper c = true → Text.toLower c ≠ [c]) :
    Settled snake (convert snake name) := by
  have hwords : ∀ w ∈ words (name.dropWhile (· == '_')), ∀ y ∈ w, Text.isUpper y = false := by
    intro w hw
    refine (mem_wordsFrom ?_ (fun _ hy => absurd hy List.not_mem_nil) none hw).2
    intro c hc _ y hy
    rcases Text.mem_toLower hy with ⟨rfl, hown⟩ | hsmall
    · apply Bool.eq_false_iff.2
      intro hupper
      exact h y ((List.dropWhile_suffix _).subset hc) hupper hown
    · exact hsmall.2.1
  have hall : ∀ y ∈ convert snake name, Text.isUpper y = false := by
    intro y hy
    rcases List.mem_append.1 hy with hy | hy
    · rw [eq_underscore_of_mem_takeWhile hy]
      decide
    · rcases mem_join_snake hy with rfl | ⟨w, hw, hyw⟩
      · decide
      · exact hwords w hw y hyw
  intro u p c v heq _
  have hc : Text.isUpper c = false := hall c (by rw [heq]; simp)
  change (Text.isUpper c && startsWord (some p) v.head?) = false
  rw [hc]
  rfl

theorem convert_eq_self_iff (convention : NamingCase) (name : List Char) :
    convention.convert (convention.convert name) = convention.convert name ↔
      convention.Settled (convention.convert name) := by
  have hspells := convention.spells_join_words (name.dropWhile (· == '_'))
  have hus : ∀ c ∈ name.takeWhile (· == '_'), c = '_' :=
    fun c hc => eq_underscore_of_mem_takeWhile hc
  have hsecond := convert_append convention hus fun c t heq => (hspells.start c t heq).1
  change convention.convert (_ ++ _) = _ ++ _ ↔ convention.Settled (_ ++ _)
  rw [hsecond, List.append_cancel_left_eq, settled_append_iff hus hspells,
    join_words_eq_iff hspells]

/-- What a convention asks for is written again as it is just where its words are found again; in
    snake case that is so for every name whose capitals all have small forms. -/
theorem convert_convert_iff (convention : NamingCase) (name : List Char) :
    (convention.convert (convention.convert name) = convention.convert name ↔
        convention.Settled (convention.convert name)) ∧
      ((∀ c ∈ name, Text.isUpper c = true → Text.toLower c ≠ [c]) →
        convert snake (convert snake name) = convert snake name) :=
  ⟨convention.convert_eq_self_iff name,
    fun h => (convert_eq_self_iff snake name).2 (settled_snake h)⟩

theorem convert_convert_htmlParser :
    (∀ c ∈ "__HTMLParser2B".toList, Text.isUpper c = true → Text.toLower c ≠ [c]) ∧
      convert snake (convert snake "__HTMLParser2B".toList) =
        convert snake "__HTMLParser2B".toList := by
  have hall : ("__HTMLParser2B".toList.all fun c =>
      decide (Text.isUpper c = true → Text.toLower c ≠ [c])) = true := by
    decide +kernel
  have hcapitals : ∀ c ∈ "__HTMLParser2B".toList, Text.isUpper c = true → Text.toLower c ≠ [c] :=
    fun c hc => of_decide_eq_true (List.all_eq_true.1 hall c hc)
  exact ⟨hcapitals, (convert_convert_iff snake "__HTMLParser2B".toList).2 hcapitals⟩

/-- A word of one letter and the word behind it are read as one. -/
theorem convert_convert_single_letters :
    convert camel "a_b_c".toList = "aBC".toList ∧ convert camel "aBC".toList = "aBc".toList := by
  decide +kernel

end NamingCase

end TwigStyle
