import TwigStyle.Proofs.Welds

/-!
# Where a closed gap can go through a word

A gap is closed between few characters: behind an opening bracket, a dot, a bar, a colon or a sign,
or in front of a closing bracket, a separator, a dot or a bar.  Most words have no such place in
them (`hasSeam`), so no closed gap goes through them.  The others are gone through one by one: dots,
the bitwise operators and the ternary.
-/

namespace TwigStyle

variable {before : List Lexeme} {row : List Cell} {a b : Char} {p q w : List Char} {cl : Closing}
  {c : Cell} {x y : Lexeme}

/-! ### Seams -/

theorem Closing.after_value (h : cl.after before x = true) :
    x.2 ∈ ["(", "[", "\x7b", ".", "|", ":", "..", "-", "+"].map String.toList := by
  simp [after] at h
  simp
  grind

theorem Closing.before_value (h : cl.before y = true) :
    y.2 ∈ [")", "]", "\x7d", ",", ":", ".", "|", ".."].map String.toList := by
  simp [Closing.before] at h
  simp
  grind

theorem Closing.before_head (h : cl.before y = true) (hb : y.2.head? = some b) :
    b ∈ ")]\x7d,:.|".toList := by
  have hvalue := Closing.before_value h
  simp only [List.map_cons, List.map_nil, List.mem_cons, List.not_mem_nil, or_false] at hvalue
  rcases hvalue with h | h | h | h | h | h | h | h <;> rw [h] at hb <;> cases hb <;> decide

/-- Can a gap between these two characters be closed? -/
def isSeam (a b : Char) : Bool :=
  "([\x7b.|:-+".toList.contains a || ")]\x7d,:.|".toList.contains b

/-- Can a gap inside of this word be closed? -/
def hasSeam : List Char → Bool
  | a :: b :: w => isSeam a b || hasSeam (b :: w)
  | _ => false

theorem hasSeam_append (hp : p.getLast? = some a) (hq : q.head? = some b) (h : isSeam a b = true) :
    hasSeam (p ++ q) = true := by
  induction p with
  | nil => cases hp
  | cons c p ih =>
    cases p with
    | nil =>
      obtain rfl : c = a := by simpa using hp
      cases q with
      | nil => cases hq
      | cons d q =>
        cases hq
        simp [hasSeam, h]
    | cons d p =>
      have := ih (by simpa using hp)
      simp only [List.cons_append] at this ⊢
      simp [hasSeam, this]

theorem Closing.isSeam_of_closes (h : cl.closes before x y = true) (hx : x.2.getLast? = some a)
    (hy : y.2.head? = some b) : isSeam a b = true := by
  rcases Bool.or_eq_true_iff.1 h with h | h
  · have := Closing.after_value h
    simp at this
    rcases this with h | h | h | h | h | h | h | h | h <;> rw [h] at hx <;> cases hx <;> rfl
  · have := Closing.before_head h hy
    exact Bool.or_eq_true_iff.2 (.inr (by simpa using this))

theorem head?_of_prefix_rowText {side : Cell → List Char} {d : Cell} (hvalue : d.lexeme.2 ≠ [])
    (hne : q ≠ []) (hq : q <+: rowText side (d :: row)) : d.lexeme.2.head? = q.head? := by
  obtain ⟨t, ht⟩ := hq
  have hhead := congrArg List.head? ht
  cases hv : d.lexeme.2 with
  | nil => exact absurd hv hvalue
  | cons a v =>
    cases q with
    | nil => exact absurd rfl hne
    | cons b q =>
      rw [rowText_cons, hv] at hhead
      exact hhead.symm

theorem Straddles.hasSeam (h : Straddles w row) (hfit : Fits before row) : hasSeam w = true := by
  induction h generalizing before with
  | @here w q c d row hold hnew hw hne hq =>
    obtain ⟨hjoint, hd, -⟩ := hfit
    have hcloses := hjoint.closes hold hnew d rfl
    obtain ⟨a, ha⟩ := List.getLast?_isSome.2 hjoint.value |> Option.isSome_iff_exists.1
    obtain ⟨b, hb⟩ := Option.isSome_iff_exists.1 (List.isSome_head?.2 hne)
    rw [hw]
    refine hasSeam_append ha hb (Closing.isSeam_of_closes hcloses ha ?_)
    rw [head?_of_prefix_rowText hd.value hne hq, hb]
  | @later w q c row hold hnew hw h ih =>
    obtain ⟨hjoint, hrest⟩ := hfit
    have hq := ih hrest
    have hmono : ∀ v, TwigStyle.hasSeam (v ++ q) = true := by
      intro v
      induction v with
      | nil => exact hq
      | cons a v ihv =>
        cases hvq : v ++ q with
        | nil => rw [hvq] at ihv; cases ihv
        | cons b t =>
          rw [hvq] at ihv
          rw [List.cons_append, hvq]
          simp [TwigStyle.hasSeam, ihv]
    rw [hw]
    exact hmono _

theorem not_straddles_singleton (hfit : Fits before row) : ¬Straddles [a] row := by
  intro h
  have := h.hasSeam hfit
  cases this

theorem not_straddles_nil (hfit : Fits before row) : ¬Straddles [] row := by
  intro h
  have := h.hasSeam hfit
  cases this

theorem Straddles.uncons (h : Straddles (a :: w) (c :: row)) (hfit : Fits before (c :: row)) :
    c.new = [] ∧ ∃ p q, c.lexeme.2 = a :: p ∧ w = p ++ q ∧ q ≠ [] ∧
      ((c.old ≠ [] ∧ ∃ d rest, row = d :: rest ∧ q <+: rowText Cell.new (d :: rest)) ∨
        c.old = [] ∧ Straddles q row) := by
  cases h with
  | here hold hnew hw hne hq =>
    rcases List.cons_eq_append_iff.1 hw with ⟨hv, -⟩ | ⟨p, hp, hpq⟩
    · exact absurd hv hfit.1.value
    · exact ⟨hnew, p, _, hp, hpq, hne, .inl ⟨hold, _, _, rfl, hq⟩⟩
  | later hold hnew hw h =>
    rcases List.cons_eq_append_iff.1 hw with ⟨hv, -⟩ | ⟨p, hp, hpq⟩
    · exact absurd hv hfit.1.value
    · refine ⟨hnew, p, _, hp, hpq, ?_, .inr ⟨hold, h⟩⟩
      rintro rfl
      exact not_straddles_nil hfit.2 h

theorem Straddles.pair (h : Straddles [a, b] (c :: row)) (hfit : Fits before (c :: row)) :
    c.lexeme.2 = [a] ∧ c.old ≠ [] ∧ c.new = [] ∧
      ∃ d rest, row = d :: rest ∧ d.lexeme.2.head? = some b := by
  obtain ⟨hnew, p, q, hp, hpq, hne, hcases⟩ := h.uncons hfit
  rcases List.cons_eq_append_iff.1 hpq with ⟨rfl, rfl⟩ | ⟨p', rfl, hnil⟩
  · rcases hcases with ⟨hold, d, rest, rfl, hq⟩ | ⟨-, h⟩
    · exact ⟨hp, hold, hnew, d, rest, rfl, head?_of_prefix_rowText hfit.2.1.value hne hq⟩
    · exact absurd h (not_straddles_singleton hfit.2)
  · exact absurd (List.append_eq_nil_iff.1 hnil.symm).2 hne

/-! ### Words with a seam -/

theorem not_straddles_dots (hfit : Fits before row) (hw : w = "..".toList ∨ w = "...".toList) :
    ¬Straddles w row := by
  have key : ∀ {w : List Char} {row : List Cell}, Straddles w row → ∀ {before},
      Fits before row → (∀ a ∈ w, a = '.') → w.length ≤ 3 → False := by
    intro w row h
    induction h with
    | @here w q c d row hold hnew hw hne hq =>
      intro before hfit hdots hlength
      obtain ⟨hjoint, hd, -⟩ := hfit
      have hqhead : d.lexeme.2.head? = some '.' := by
        rw [head?_of_prefix_rowText hd.value hne hq]
        cases q with
        | nil => exact absurd rfl hne
        | cons b q => rw [hdots b (by simp [hw])]; rfl
      have hx : c.lexeme.2 = ".".toList ∨ c.lexeme.2 = "..".toList := by
        have hall : ∀ a ∈ c.lexeme.2, a = '.' := fun a ha => hdots a (by simp [hw, ha])
        have hpos := List.length_pos_iff.2 hjoint.value
        have hqpos := List.length_pos_iff.2 hne
        rw [hw, List.length_append] at hlength
        rw [List.eq_replicate_of_mem hall]
        have : c.lexeme.2.length = 1 ∨ c.lexeme.2.length = 2 := by omega
        rcases this with h | h <;> rw [h]
        · exact .inl rfl
        · exact .inr rfl
      have hwelds : welds before (((c :: d :: row).take 2).map Cell.lexeme) = true := by
        rcases hx with hx | hx <;> simp [welds, weldsDots, hx, hqhead]
      exact hold (hjoint.unwelded 2 hwelds (by simp [hnew]) c (by simp))
    | @later w q c row hold hnew hw h ih =>
      intro before hfit hdots hlength
      refine ih hfit.2 (fun a ha => hdots a (by simp [hw, ha])) ?_
      rw [hw, List.length_append] at hlength
      omega
  intro h
  rcases hw with rfl | rfl
  · exact key h hfit (by simp) (by decide)
  · exact key h hfit (by simp) (by decide)

/-! ### Letters -/

theorem not_isSeam_of_isAlpha (ha : a.isAlpha = true) (hb : b.isAlpha = true) :
    isSeam a b = false := by
  have key : ∀ t : List Char, (∀ c ∈ t, c.isAlpha = false) → ∀ {c : Char}, c.isAlpha = true →
      t.contains c = false := by
    intro t ht c hc
    cases hmem : t.contains c with
    | false => rfl
    | true =>
      rw [ht c (by simpa using hmem)] at hc
      cases hc
  rw [isSeam, key "([\x7b.|:-+".toList (by simp) ha, key ")]\x7d,:.|".toList (by simp) hb]
  rfl

theorem hasSeam_of_isAlpha (hw : ∀ a ∈ w, a.isAlpha = true) : hasSeam w = false := by
  induction w with
  | nil => rfl
  | cons a w ih =>
    cases w with
    | nil => rfl
    | cons b w =>
      rw [hasSeam, not_isSeam_of_isAlpha (hw a (by simp)) (hw b (by simp)),
        ih fun c hc => hw c (List.mem_cons_of_mem a hc)]
      rfl

theorem toNat_lt_of_isAlpha (h : a.isAlpha = true) : a.toNat < 0x80 := by
  have := toNat_of_isAlpha h
  omega

theorem isWordChar_of_isAlpha (h : a.isAlpha = true) : Text.isWordChar a = true := by
  rw [Text.isWordChar, if_pos (toNat_lt_of_isAlpha h), Char.isAlphanum, h]
  rfl

theorem isLayout_of_isAlpha (h : a.isAlpha = true) : Text.isLayout a = false :=
  isLayout_eq_false (p := Char.isAlpha) rfl h

theorem Joint.letters_within {u : List Char} (hjoint : Joint before c row)
    (hrest : Fits (c.lexeme :: before) row) (hu : c.lexeme.2 = p ++ u) (hne : u ≠ [])
    (hw : ∀ a ∈ w, a.isAlpha = true) (h : w <+: u ++ (c.new ++ rowText Cell.new row)) :
    w <+: u := by
  obtain ⟨t, ht⟩ := h
  rcases List.append_eq_append_iff.1 ht with ⟨z, rfl, -⟩ | ⟨w₂, rfl, h₂⟩
  · exact List.prefix_append w z
  · by_cases hw₂ : w₂ = []
    · simp [hw₂]
    · exfalso
      obtain ⟨b, hb⟩ := Option.isSome_iff_exists.1 (List.isSome_head?.2 hw₂)
      have hbw : b ∈ w₂ := List.mem_of_head? hb
      have hletter : b.isAlpha = true := hw b (List.mem_append_right u hbw)
      have hnew : c.new = [] := by
        cases w₂ with
        | nil => cases hb
        | cons b' w₂ =>
          cases hb
          exact hjoint.new.eq_nil h₂ (isLayout_of_isAlpha hletter)
      rw [hnew, List.nil_append] at h₂
      cases row with
      | nil => exact hw₂ (List.append_eq_nil_iff.1 h₂.symm).1
      | cons d row =>
        have hd : d.lexeme.2.head? = some b := by
          rw [head?_of_prefix_rowText hrest.1.value hw₂ ⟨t, h₂.symm⟩, hb]
        obtain ⟨a, ha⟩ := Option.isSome_iff_exists.1 (List.getLast?_isSome.2 hne)
        have hlast : c.lexeme.2.getLast? = some a := by
          rw [hu, List.getLast?_append, ha, Option.some_or]
        have halpha : a.isAlpha = true :=
          hw a (List.mem_append_left w₂ (List.mem_of_getLast? ha))
        by_cases hold : c.old = []
        · have hapart := hjoint.apart hold (by rw [hlast]; exact halpha) d rfl
          rw [hd, Option.any_some, isWordChar_of_isAlpha hletter] at hapart
          cases hapart
        · have hseam := Closing.isSeam_of_closes (hjoint.closes hold hnew d rfl) hlast hd
          rw [not_isSeam_of_isAlpha halpha hletter] at hseam
          cases hseam

/-- A word of letters that a row starts with ends as such in the first lexeme. -/
theorem Joint.word_within {t : List Char} (hjoint : Joint before c row)
    (hrest : Fits (c.lexeme :: before) row) (hw : ∀ a ∈ w, a.isAlpha = true)
    (htext : rowText Cell.new (c :: row) = w ++ t) (hend : Operator.atBoundary t = true) :
    (Text.after? w c.lexeme.2).any Operator.atBoundary = true := by
  rw [rowText_cons] at htext
  obtain ⟨z, hz⟩ : w <+: c.lexeme.2 :=
    hjoint.letters_within hrest (p := []) rfl hjoint.value hw ⟨t, htext.symm⟩
  rw [← hz, List.append_assoc] at htext
  have htail := List.append_cancel_left htext
  rw [Text.after?_eq_some_iff.2 hz.symm]
  cases z with
  | nil => rfl
  | cons a z =>
    rw [← htail] at hend
    exact hend

theorem not_straddles_bitwise {o q' : List Char} (hfit : Fits before row)
    (ho : o ∈ ["or", "xor", "and"].map String.toList)
    (haccess : endsAccess before.reverse = false)
    (htext : rowText Cell.new row = 'b' :: '-' :: o ++ q') (hend : Operator.atBoundary q' = true) :
    ¬Straddles ('b' :: '-' :: o) row := by
  have hletters : ∀ a ∈ o, a.isAlpha = true := by
    simp only [List.map_cons, List.map_nil, List.mem_cons, List.not_mem_nil, or_false] at ho
    rcases ho with rfl | rfl | rfl <;> simp
  have hbefore : ∀ {y : Lexeme} {b : Char}, Closing.all.before y = true → y.2.head? = some b →
      b ∈ '-' :: o → False := by
    intro y b hy hb hmem
    have hnone : ∀ c ∈ ")]\x7d,:.|".toList, c ≠ '-' ∧ c.isAlpha = false := by simp
    have hhead := hnone b (Closing.before_head hy hb)
    rcases List.mem_cons.1 hmem with hb | hb
    · exact hhead.1 hb
    · rw [hletters b hb] at hhead
      cases hhead.2
  have hletters' : ∀ {p q : List Char} {before : List Lexeme} {row : List Cell}, o = p ++ q →
      Fits before row → ¬Straddles q row := by
    intro p q before row hpq hfit h
    have hseam := h.hasSeam hfit
    rw [hasSeam_of_isAlpha fun a ha => hletters a (by simp [hpq, ha])] at hseam
    cases hseam
  intro h
  cases row with
  | nil => cases h
  | cons c row =>
  obtain ⟨hnew, p, q, hp, hpq, hne, ⟨hold, d, rest, rfl, hq⟩ | ⟨hold, h⟩⟩ := h.uncons hfit
  · rcases Bool.or_eq_true_iff.1 (hfit.1.closes hold hnew d rfl) with hafter | hafter
    · have hvalue := Closing.after_value hafter
      rw [hp] at hvalue
      simp at hvalue
    · obtain ⟨b, hb⟩ := Option.isSome_iff_exists.1 (List.isSome_head?.2 hne)
      refine hbefore hafter ((head?_of_prefix_rowText hfit.2.1.value hne hq).trans hb) ?_
      rw [hpq]
      exact List.mem_append_right p (List.mem_of_head? hb)
  · rcases List.cons_eq_append_iff.1 hpq with ⟨rfl, rfl⟩ | ⟨p', rfl, ho'⟩
    rotate_left
    · exact hletters' ho' hfit.2 h
    cases row with
    | nil => cases h
    | cons c' row =>
    obtain ⟨hnew', p, q, hp', ho', hne, ⟨hold', d, rest, rfl, hq⟩ | ⟨hold', h⟩⟩ := h.uncons hfit.2
    rotate_left
    · exact hletters' ho' hfit.2.2 h
    obtain ⟨hjoint, hjoint', hd, hrest'⟩ := hfit
    have hp'' : p = [] := by
      rcases Bool.or_eq_true_iff.1 (hjoint'.closes hold' hnew' d rfl) with hafter | hafter
      · have hvalue := Closing.after_value hafter
        rw [hp'] at hvalue
        simpa using hvalue
      · obtain ⟨b, hb⟩ := Option.isSome_iff_exists.1 (List.isSome_head?.2 hne)
        refine (hbefore hafter ((head?_of_prefix_rowText hd.value hne hq).trans hb) ?_).elim
        rw [ho']
        exact List.mem_cons_of_mem _ (List.mem_append_right p (List.mem_of_head? hb))
    subst hp''
    -- Now `b`, the minus and the word stand side by side.
    have htext' : rowText Cell.new (d :: rest) = o ++ q' := by
      simpa [hp, hp', hnew, hnew'] using htext
    have hafter := hd.word_within hrest' hletters htext' hend
    have hwelds : welds before (((c :: c' :: d :: rest).take 3).map Cell.lexeme) = true := by
      have ho'' : (["or", "xor", "and"].any fun w =>
          (Text.after? w.toList d.lexeme.2).any Operator.atBoundary) = true := by
        simp only [List.map_cons, List.map_nil, List.mem_cons, List.not_mem_nil, or_false] at ho
        rw [List.any_eq_true]
        rcases ho with rfl | rfl | rfl
        · exact ⟨"or", by simp, hafter⟩
        · exact ⟨"xor", by simp, hafter⟩
        · exact ⟨"and", by simp, hafter⟩
      simp [welds, weldsBitwise, hp, hp', haccess, ho'']
    exact hold' (hjoint.unwelded 3 hwelds (by simp [hnew, hnew']) c' (by simp))

theorem not_straddles_ternary (hfit : Fits before (c :: row))
    (hternary : c.lexeme.2 = ['?'] → ∀ d ∈ row.head?, d.lexeme ≠ (.punctuation, [':'])) :
    ¬Straddles ['?', ':'] (c :: row) := by
  intro h
  obtain ⟨hp, hold, hnew, d, rest, rfl, hhead⟩ := h.pair hfit
  rcases Bool.or_eq_true_iff.1 (hfit.1.closes hold hnew d rfl) with hafter | hafter
  · have hvalue := Closing.after_value hafter
    rw [hp] at hvalue
    simp at hvalue
  · refine hternary hp d rfl ?_
    have hvalue := Closing.before_value hafter
    simp only [List.map_cons, List.map_nil, List.mem_cons, List.not_mem_nil, or_false] at hvalue
    simp [Closing.before] at hafter
    rcases hvalue with h | h | h | h | h | h | h | h <;> rw [h] at hhead <;> cases hhead
    rw [h] at hafter
    simp at hafter
    exact Prod.ext hafter.2 h

end TwigStyle
