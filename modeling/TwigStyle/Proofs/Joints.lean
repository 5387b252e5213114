import TwigStyle.Proofs.Numbers
import TwigStyle.Proofs.Seams

/-!
# Lexemes in the new text of a row

Every test that the lexer makes on the way to a lexeme comes out in the new text of a row as it does
in the old one: numbers and names end where they did, the same operators are there, and no construct
ends that did not end before.  `Fits.transfer` and `Fits.stop` say so for a whole lexeme.
-/

namespace TwigStyle

variable {before : List Lexeme} {c : Cell} {row : List Cell} {a : Char} {t : List Char}

/-! ### Numbers -/

theorem Fits.next (hfit : Fits before (c :: row)) (ha : Text.isLayout a = false)
    (h : [a] <+: c.new ++ rowText Cell.new row) :
    c.new = [] ∧ ∃ d rest, row = d :: rest ∧ d.lexeme.2.head? = some a := by
  obtain ⟨t, ht⟩ := h
  have hnew : c.new = [] := hfit.1.new.eq_nil ht.symm ha
  refine ⟨hnew, ?_⟩
  rw [hnew, List.nil_append] at ht
  cases row with
  | nil => cases ht
  | cons d rest =>
    exact ⟨d, rest, rfl, head?_of_prefix_rowText hfit.2.1.value (List.cons_ne_nil a []) ⟨t, ht⟩⟩

/-- What follows a number in the new text follows it in the old one, unless the gap behind the
    number was closed, or a later one. -/
theorem Fits.rest_old {q : List Char} (hfit : Fits before (c :: row))
    (hv : ∀ a ∈ c.lexeme.2, Text.isLayout a = false) (hq : ∀ a ∈ q, Text.isLayout a = false)
    (hne : q ≠ []) (h : q <+: c.new ++ rowText Cell.new row) : q <+: c.old ++ rowText Cell.old row ∨
      (∃ d rest, row = d :: rest ∧ c.old ≠ [] ∧ c.new = [] ∧ q <+: rowText Cell.new (d :: rest)) ∨
      c.old = [] ∧ c.new = [] ∧ Straddles q row := by
  obtain ⟨t, ht⟩ := h
  have htext : rowText Cell.new (c :: row) = (c.lexeme.2 ++ q) ++ t := by
    rw [rowText_cons, ← ht, List.append_assoc]
  have hsolid : ∀ a ∈ c.lexeme.2 ++ q, Text.isLayout a = false := by
    intro a ha
    rcases List.mem_append.1 ha with ha | ha
    · exact hv a ha
    · exact hq a ha
  rcases word_old hfit hsolid (by simp [hne]) htext with ⟨t', ht', -⟩ | h
  · rw [rowText_cons, List.append_assoc] at ht'
    exact .inl ⟨t', (List.append_cancel_left ht').symm⟩
  · cases h with
    | here hold hnew hw _ hq =>
      cases List.append_cancel_left hw
      exact .inr (.inl ⟨_, _, rfl, hold, hnew, hq⟩)
    | later hold hnew hw h =>
      cases List.append_cancel_left hw
      exact .inr (.inr ⟨hold, hnew, h⟩)

section Number

variable {before : List Lexeme} {c : Cell} {row : List Cell} {d f x : List Char} {a : Char}

theorem Lexeme.Parts.closes (hparts : Lexeme.Parts c.lexeme.2 d f x) {e : Cell}
    (h : Closing.all.closes before c.lexeme e.lexeme = true) :
    Closing.all.before e.lexeme = true := by
  obtain ⟨-, last, hlast, hdigit⟩ := hparts.chars
  rcases Bool.or_eq_true_iff.1 h with hafter | hafter
  · have hvalue := Closing.after_value hafter
    simp only [List.map_cons, List.map_nil, List.mem_cons, List.not_mem_nil, or_false] at hvalue
    rcases hvalue with h | h | h | h | h | h | h | h | h <;> rw [h] at hlast <;> cases hlast <;>
      cases hdigit
  · exact hafter

theorem Fits.digit_old (hfit : Fits before (c :: row)) (hparts : Lexeme.Parts c.lexeme.2 d f x)
    (ha : a.isDigit = true) (h : [a] <+: c.new ++ rowText Cell.new row) :
    [a] <+: c.old ++ rowText Cell.old row := by
  rcases hfit.rest_old hparts.chars.1 (by simp [Lexeme.isLayout_of_isDigit ha]) (by simp) h with
    h | ⟨e, rest, rfl, hold, hnew, hq⟩ | ⟨-, -, h⟩
  · exact h
  · have hmem := Closing.before_head (hparts.closes (hfit.1.closes hold hnew e rfl))
      (head?_of_prefix_rowText hfit.2.1.value (by simp) hq)
    simp at hmem
    rcases hmem with rfl | rfl | rfl | rfl | rfl | rfl | rfl <;> cases ha
  · exact absurd h (not_straddles_singleton hfit.2)

theorem Fits.fraction_old (hfit : Fits before (c :: row)) (hparts : Lexeme.Parts c.lexeme.2 d [] [])
    (ha : a.isDigit = true) (h : ['.', a] <+: c.new ++ rowText Cell.new row) :
    ['.', a] <+: c.old ++ rowText Cell.old row := by
  have hdigits : c.lexeme.2.all Char.isDigit = true := by
    simpa [hparts.eq] using hparts.whole.2
  -- The number, a dot and a digit would come together.
  have hweld : ∀ {e₁ e₂ : Cell} {rest : List Cell}, row = e₁ :: e₂ :: rest →
      e₁.lexeme.2 = ['.'] → e₂.lexeme.2.head? = some a → c.new = [] → e₁.new = [] →
      c.old = [] ∧ e₁.old = [] := by
    rintro e₁ e₂ rest rfl hdot hhead hnew hnew'
    have hold := hfit.1.unwelded 3 (by simp [welds, weldsFraction, hdigits, hdot, hhead, ha])
      (by simp [hnew, hnew'])
    exact ⟨hold c (by simp), hold e₁ (by simp)⟩
  have hsolid := Lexeme.isLayout_of_isDigit ha
  have hdot : Text.isLayout '.' = false := rfl
  rcases hfit.rest_old hparts.chars.1 (by simp [hsolid, hdot]) (by simp) h with
    h | ⟨e₁, rest, rfl, hold, hnew, hq⟩ | ⟨-, hnew, h⟩
  · exact h
  · exfalso
    have hvalue := Closing.before_value (hparts.closes (hfit.1.closes hold hnew e₁ rfl))
    have hhead := head?_of_prefix_rowText hfit.2.1.value (by simp) hq
    simp only [List.map_cons, List.map_nil, List.mem_cons, List.not_mem_nil, or_false] at hvalue
    rw [rowText_cons] at hq
    rcases hvalue with hv | hv | hv | hv | hv | hv | hv | hv <;> rw [hv] at hhead hq <;>
      cases hhead
    · obtain ⟨hnew', e₂, rest', rfl, he₂⟩ :=
        hfit.2.next hsolid (by simpa [List.cons_prefix_cons] using hq)
      exact hold (hweld rfl hv he₂ hnew hnew').1
    · have : a = '.' := by simpa [List.cons_prefix_cons] using hq
      subst this
      cases ha
  · cases row with
    | nil => cases h
    | cons e₁ row =>
      obtain ⟨hp, hold', hnew', e₂, rest, rfl, he₂⟩ := h.pair hfit.2
      exact absurd (hweld rfl hp he₂ hnew hnew').2 hold'

theorem Lexeme.Parts.plain {v : List Char} (h : Lexeme.Parts v d f []) :
    v.all (fun c => c.isDigit || c == '.') = true := by
  rw [List.all_eq_true]
  intro b hb
  rw [h.eq, List.append_nil] at hb
  rcases List.mem_append.1 hb with hb | hb
  · simp [h.whole.2 b hb]
  · rcases h.fraction with hf | ⟨fs, hf, -, hall⟩
    · simp [hf] at hb
    · rw [hf] at hb
      rcases List.mem_cons.1 hb with rfl | hb
      · rfl
      · simp [hall b hb]

theorem Fits.exponent_old (hfit : Fits before (c :: row)) (hparts : Lexeme.Parts c.lexeme.2 d f [])
    {e sign : Char} (he : e = 'e' ∨ e = 'E') (hsign : sign = '+' ∨ sign = '-')
    (ha : a.isDigit = true) (h : [e, sign, a] <+: c.new ++ rowText Cell.new row) :
    [e, sign, a] <+: c.old ++ rowText Cell.old row := by
  have hsolid₁ : Text.isLayout e = false := by rcases he with rfl | rfl <;> rfl
  have hsolid₂ : Text.isLayout sign = false := by rcases hsign with rfl | rfl <;> rfl
  have hsolid₃ := Lexeme.isLayout_of_isDigit ha
  -- No gap is closed in front of these characters.
  have hbefore : ∀ {y : Lexeme} {b : Char}, Closing.all.before y = true → y.2.head? = some b →
      b ∉ [e, sign, a] := by
    intro y b hy hb hmem
    have hmem' := Closing.before_head hy hb
    simp only [List.mem_cons, List.not_mem_nil, or_false] at hmem
    simp at hmem'
    rcases hmem with rfl | rfl | rfl
    · rcases he with rfl | rfl <;> simp at hmem'
    · rcases hsign with rfl | rfl <;> simp at hmem'
    · rcases hmem' with rfl | rfl | rfl | rfl | rfl | rfl | rfl <;> cases ha
  rcases hfit.rest_old hparts.chars.1 (by simp [hsolid₁, hsolid₂, hsolid₃]) (by simp) h with
    h | ⟨e₁, rest, rfl, hold, hnew, hq⟩ | ⟨-, hnew, h⟩
  · exact h
  · exact absurd (by simp) (hbefore (hparts.closes (hfit.1.closes hold hnew e₁ rfl))
      (head?_of_prefix_rowText hfit.2.1.value (by simp) hq))
  exfalso
  cases row with
  | nil => cases h
  | cons e₁ row =>
    obtain ⟨hnew₁, p, q, hp, hpq, hne₁, ⟨hold₁, e₂, rest, rfl, hq⟩ | ⟨-, h⟩⟩ := h.uncons hfit.2
    · -- No gap is closed behind the `e`.
      rcases Bool.or_eq_true_iff.1 (hfit.2.1.closes hold₁ hnew₁ e₂ rfl) with hafter | hafter
      · have hvalue := Closing.after_value hafter
        rw [hp] at hvalue
        rcases he with rfl | rfl <;> simp at hvalue
      · obtain ⟨b, hb⟩ := Option.isSome_iff_exists.1 (List.isSome_head?.2 hne₁)
        refine hbefore hafter ((head?_of_prefix_rowText hfit.2.2.1.value hne₁ hq).trans hb) ?_
        refine List.mem_cons_of_mem e ?_
        rw [hpq]
        exact List.mem_append_right p (List.mem_of_head? hb)
    · rcases List.cons_eq_append_iff.1 hpq with ⟨rfl, rfl⟩ | ⟨p', rfl, hpq'⟩
      · cases row with
        | nil => cases h
        | cons e₂ row =>
          obtain ⟨hp₂, hold₂, hnew₂, e₃, rest, rfl, he₃⟩ := h.pair hfit.2.2
          -- The number, the `e`, the sign and a digit come together.
          have he₁ : (e₁.lexeme.2 == "e".toList || e₁.lexeme.2 == "E".toList) = true := by
            rw [hp]
            rcases he with rfl | rfl <;> rfl
          have he₂ : (e₂.lexeme.2 == "-".toList || e₂.lexeme.2 == "+".toList) = true := by
            rw [hp₂]
            rcases hsign with rfl | rfl <;> rfl
          have hweld : welds before (((c :: e₁ :: e₂ :: e₃ :: rest).take 4).map Cell.lexeme) =
              true := by
            simp only [List.take_succ_cons, List.take_zero, List.map_cons, List.map_nil, welds,
              weldsExponent, hparts.plain, he₁, he₂, he₃, Option.any_some, ha, Bool.and_self]
          exact hold₂ (hfit.1.unwelded 4 hweld (by simp [hnew, hnew₁, hnew₂]) e₂ (by simp))
      · rcases List.cons_eq_append_iff.1 hpq' with ⟨rfl, rfl⟩ | ⟨p'', rfl, hnil⟩
        · exact not_straddles_singleton hfit.2.2 h
        · exact hne₁ (List.append_eq_nil_iff.1 hnil.symm).2

theorem Fits.number (hfit : Fits before (c :: row))
    (h : Lexeme.numberLength (c.lexeme.2 ++ (c.old ++ rowText Cell.old row)) = c.lexeme.2.length) :
    Lexeme.numberLength (c.lexeme.2 ++ (c.new ++ rowText Cell.new row)) = c.lexeme.2.length := by
  obtain ⟨d, f, x, hparts⟩ := Lexeme.exists_parts hfit.1.value h
  rw [hparts.numberLength_iff] at h ⊢
  obtain ⟨hdigit, hfraction, hexponent⟩ := h
  refine ⟨?_, ?_, ?_⟩
  · rw [Lexeme.digitsLength_eq_zero_iff] at hdigit ⊢
    cases hhead : (c.new ++ rowText Cell.new row).head? with
    | none => rfl
    | some a =>
      cases ha : a.isDigit with
      | false => simp [ha]
      | true =>
        obtain ⟨t, ht⟩ := List.head?_eq_some_iff.1 hhead
        obtain ⟨t', ht'⟩ := hfit.digit_old hparts ha ⟨t, ht.symm⟩
        rw [← ht'] at hdigit
        simp [ha] at hdigit
  · rintro rfl rfl
    refine Classical.byContradiction fun hne => ?_
    obtain ⟨a, ha, hpre⟩ := Lexeme.fractionLength_ne_zero_iff.1 hne
    exact Lexeme.fractionLength_ne_zero_iff.2 ⟨a, ha, hfit.fraction_old hparts ha hpre⟩
      (hfraction rfl rfl)
  · rintro rfl
    refine Classical.byContradiction fun hne => ?_
    obtain ⟨e, sign, a, he, hsign, ha, hpre⟩ := Lexeme.exponentLength_ne_zero_iff.1 hne
    exact Lexeme.exponentLength_ne_zero_iff.2
      ⟨e, sign, a, he, hsign, ha, hfit.exponent_old hparts he hsign ha hpre⟩ (hexponent rfl)

end Number

/-! ### Operators of two words -/

theorem isBlank_of_isLayout (h : Text.isLayout a = true) : Text.isBlank a = true :=
  of_isLayout rfl h

theorem blank_or_split (z : List Char) : (∀ a ∈ z, Text.isBlank a = true) ∨
    ∃ p u, z = p ++ u ∧ u ≠ [] ∧ ∀ t, (z ++ t).dropWhile Text.isBlank = u ++ t := by
  induction z with
  | nil => exact .inl nofun
  | cons a z ih =>
    cases ha : Text.isBlank a with
    | false =>
      refine .inr ⟨[], a :: z, rfl, List.cons_ne_nil a z, fun t => ?_⟩
      rw [List.cons_append, List.dropWhile_cons_of_neg (by simp [ha])]
    | true =>
      rcases ih with hz | ⟨p, u, rfl, hu, hdrop⟩
      · refine .inl fun b hb => ?_
        rcases List.mem_cons.1 hb with rfl | hb
        · exact ha
        · exact hz b hb
      · refine .inr ⟨a :: p, u, rfl, hu, fun t => ?_⟩
        rw [List.cons_append, List.dropWhile_cons_of_pos ha, hdrop]

section TwoWords

variable {before : List Lexeme} {c : Cell} {row : List Cell} {w q' : List Char}

theorem Joint.letters_old (hjoint : Joint before c row) (hrest : Fits (c.lexeme :: before) row)
    {p u : List Char} (hu : c.lexeme.2 = p ++ u) (hne : u ≠ [])
    (hw : ∀ a ∈ w, a.isAlpha = true) (hw' : w ≠ [])
    (h : u ++ (c.new ++ rowText Cell.new row) = w ++ q') (hend : Operator.atBoundary q' = true) :
    ∃ q, u ++ (c.old ++ rowText Cell.old row) = w ++ q ∧ Operator.atBoundary q = true := by
  obtain ⟨z, rfl⟩ := hjoint.letters_within hrest hu hne hw ⟨q', h.symm⟩
  refine ⟨z ++ (c.old ++ rowText Cell.old row), by rw [List.append_assoc], ?_⟩
  rw [List.append_assoc] at h
  have hq' := List.append_cancel_left h
  cases z with
  | nil =>
    refine hjoint.atBoundary hrest ?_
    rw [hu, List.append_nil, List.getLast?_append, List.getLast?_eq_some_getLast hw', Option.some_or]
    exact hw _ (List.getLast_mem hw')
  | cons a z =>
    rw [← hq'] at hend
    exact hend

theorem Fits.word_after_blanks (hfit : Fits before row) (hw : ∀ a ∈ w, a.isAlpha = true)
    (hw' : w ≠ []) (h : (rowText Cell.new row).dropWhile Text.isBlank = w ++ q')
    (hend : Operator.atBoundary q' = true) :
    ∃ q, (rowText Cell.old row).dropWhile Text.isBlank = w ++ q ∧ Operator.atBoundary q = true := by
  induction row generalizing before with
  | nil => exact absurd (List.append_eq_nil_iff.1 h.symm).1 hw'
  | cons c row ih =>
    obtain ⟨hjoint, hrest⟩ := hfit
    have hgap : ∀ {g : List Char}, IsGap g → ∀ a ∈ g, Text.isBlank a = true :=
      fun hg a ha => isBlank_of_isLayout (hg a ha)
    rw [rowText_cons] at h ⊢
    rcases blank_or_split c.lexeme.2 with hblank | ⟨p, u, hu, hne, hdrop⟩
    · rw [List.dropWhile_append_of_pos hblank, List.dropWhile_append_of_pos (hgap hjoint.new)] at h
      rw [List.dropWhile_append_of_pos hblank, List.dropWhile_append_of_pos (hgap hjoint.old)]
      exact ih hrest h
    · rw [hdrop] at h ⊢
      exact hjoint.letters_old hrest hu hne hw hw' h hend

/-- Where a word comes right behind a word, there is a blank in front of it. -/
theorem Joint.blank_behind {w : List Char} (hjoint : Joint before c row)
    (hrest : Fits (c.lexeme :: before) row) (hold : c.old = [])
    (hletter : c.lexeme.2.getLast?.any Char.isAlpha = true) (hw : ∀ a ∈ w, a.isAlpha = true)
    (hne : w ≠ []) (hdrop : (rowText Cell.new row).dropWhile Text.isBlank = w ++ q') :
    (rowText Cell.old row).head?.any Text.isBlank = true := by
  cases row with
  | nil => exact absurd (List.append_eq_nil_iff.1 hdrop.symm).1 hne
  | cons d row =>
    have hapart := hjoint.apart hold hletter d rfl
    rw [rowText_cons] at hdrop ⊢
    cases hv : d.lexeme.2 with
    | nil => exact absurd hv hrest.1.value
    | cons a v =>
      rw [hv] at hdrop hapart
      cases ha : Text.isBlank a with
      | true => simp [ha]
      | false =>
        rw [List.cons_append, List.dropWhile_cons_of_neg (by simp [ha])] at hdrop
        obtain ⟨b, w, rfl⟩ := List.exists_cons_of_ne_nil hne
        obtain ⟨rfl, -⟩ := List.cons.inj hdrop
        have hword := isWordChar_of_isAlpha (hw a List.mem_cons_self)
        simp [hword] at hapart

theorem Fits.twoWords_old (hfit : Fits before (c :: row)) {w₁ w₂ : List Char}
    (hw₁ : ∀ a ∈ w₁, a.isAlpha = true) (hne₁ : w₁ ≠ []) (hw₂ : ∀ a ∈ w₂, a.isAlpha = true)
    (hne₂ : w₂ ≠ []) (h : Operator.afterWords? [w₁, w₂] (rowText Cell.new (c :: row)) = some q')
    (hend : Operator.atBoundary q' = true) :
    ∃ q, Operator.afterWords? [w₁, w₂] (rowText Cell.old (c :: row)) = some q ∧
      Operator.atBoundary q = true := by
  obtain ⟨hjoint, hrest⟩ := hfit
  obtain ⟨b, rest, htext, hb, hword⟩ := Operator.afterWords?_cons_cons.1 h
  rw [rowText_cons] at htext
  obtain ⟨z, hz⟩ : w₁ <+: c.lexeme.2 :=
    hjoint.letters_within hrest (p := []) rfl hjoint.value hw₁ ⟨_, htext.symm⟩
  rw [← hz, List.append_assoc] at htext
  have htail := List.append_cancel_left htext
  -- The blanks and the second word, seen from the end of the first.
  have hdrop : (z ++ (c.new ++ rowText Cell.new row)).dropWhile Text.isBlank = w₂ ++ q' := by
    rw [htail, List.dropWhile_cons_of_pos hb]
    exact Operator.afterWords?_singleton.1 hword
  have hfinish : ∀ q, (z ++ (c.old ++ rowText Cell.old row)).dropWhile Text.isBlank = w₂ ++ q →
      Operator.atBoundary q = true →
      (z ++ (c.old ++ rowText Cell.old row)).head?.any Text.isBlank = true →
      ∃ q, Operator.afterWords? [w₁, w₂] (rowText Cell.old (c :: row)) = some q ∧
        Operator.atBoundary q = true := by
    intro q hq hboundary hhead
    cases ht : z ++ (c.old ++ rowText Cell.old row) with
    | nil => rw [ht] at hhead; cases hhead
    | cons a t =>
      rw [ht] at hq hhead
      have ha : Text.isBlank a = true := hhead
      rw [List.dropWhile_cons_of_pos ha] at hq
      refine ⟨q, Operator.afterWords?_cons_cons.2 ⟨a, t, ?_, ha, ?_⟩, hboundary⟩
      · rw [rowText_cons, ← hz, List.append_assoc, ht]
      · exact Operator.afterWords?_singleton.2 hq
  have hgap : ∀ {g : List Char}, IsGap g → ∀ a ∈ g, Text.isBlank a = true :=
    fun hg a ha => isBlank_of_isLayout (hg a ha)
  rcases blank_or_split z with hblank | ⟨p, u, rfl, hne, hsplit⟩
  · rw [List.dropWhile_append_of_pos hblank, List.dropWhile_append_of_pos (hgap hjoint.new)]
      at hdrop
    obtain ⟨q, hq, hboundary⟩ := hrest.word_after_blanks hw₂ hne₂ hdrop hend
    refine hfinish q ?_ hboundary ?_
    · rw [List.dropWhile_append_of_pos hblank, List.dropWhile_append_of_pos (hgap hjoint.old), hq]
    · cases z with
      | cons a z => exact hblank a List.mem_cons_self
      | nil =>
        rw [List.nil_append]
        cases hold : c.old with
        | cons a g => exact hgap hjoint.old a (by simp [hold])
        | nil =>
          have hletter : c.lexeme.2.getLast?.any Char.isAlpha = true := by
            rw [← hz, List.append_nil, List.getLast?_eq_some_getLast hne₁]
            exact hw₁ _ (List.getLast_mem hne₁)
          exact hjoint.blank_behind hrest hold hletter hw₂ hne₂ hdrop
  · rw [hsplit] at hdrop
    have hu : c.lexeme.2 = (w₁ ++ p) ++ u := by rw [← hz, List.append_assoc]
    obtain ⟨q, hq, hboundary⟩ := hjoint.letters_old hrest hu hne hw₂ hne₂ hdrop hend
    refine hfinish q ?_ hboundary ?_
    · rw [hsplit, hq]
    · cases hpu : p ++ u with
      | nil => exact absurd (List.append_eq_nil_iff.1 hpu).2 hne
      | cons a t =>
        rw [hpu] at htail
        obtain ⟨rfl, -⟩ := List.cons.inj htail
        exact hb

end TwoWords

/-! ### The operators of the template language -/

/-- The words with a seam in them. -/
def seamWords : List (List Char) := ["..", "?:", "b-or", "b-xor", "b-and"].map String.toList

/-- An operator is one word without a seam or one of `seamWords`, or it is two words of letters. -/
def Operator.isUsual (op : Operator) : Bool :=
  match op.words with
  | [w] => !w.isEmpty && w.all (!Text.isBlank ·) &&
      op.needsBoundary == w.getLast?.any Char.isAlpha && (!hasSeam w || seamWords.contains w)
  | [w₁, w₂] => !w₁.isEmpty && w₁.all Char.isAlpha && !w₂.isEmpty && w₂.all Char.isAlpha &&
      op.needsBoundary
  | _ => false

theorem isUsual_of_mem_default {op : Operator} (h : op ∈ OperatorTable.default.operators) :
    op.isUsual = true := by
  have hall : OperatorTable.default.operators.all Operator.isUsual = true := by decide +kernel
  exact List.all_eq_true.1 hall op h

theorem Operator.afterWords?_pair {w₁ w₂ r : List Char} (hw₂ : w₂.head?.any Text.isBlank = false)
    (hne : w₂ ≠ []) :
    afterWords? [w₁, w₂] t = some r ↔ ∃ gap, gap ≠ [] ∧ (∀ a ∈ gap, Text.isBlank a = true) ∧
      t = w₁ ++ (gap ++ (w₂ ++ r)) := by
  rw [afterWords?_cons_cons]
  constructor
  · rintro ⟨b, rest, rfl, hb, h⟩
    refine ⟨b :: rest.takeWhile Text.isBlank, List.cons_ne_nil _ _, ?_, ?_⟩
    · intro a ha
      rcases List.mem_cons.1 ha with rfl | ha
      · exact hb
      · exact List.all_eq_true.1 List.all_takeWhile a ha
    · rw [← afterWords?_singleton.1 h, List.cons_append, List.takeWhile_append_dropWhile]
  · rintro ⟨gap, hgap, hblank, rfl⟩
    cases gap with
    | nil => exact absurd rfl hgap
    | cons b gap =>
      refine ⟨b, gap ++ (w₂ ++ r), rfl, hblank b List.mem_cons_self, afterWords?_singleton.2 ?_⟩
      rw [List.dropWhile_append_of_pos fun a ha => hblank a (List.mem_cons_of_mem b ha)]
      cases w₂ with
      | nil => exact absurd rfl hne
      | cons a w₂ =>
        rw [List.cons_append, List.dropWhile_cons_of_neg]
        simpa using hw₂

section Operators

variable {before : List Lexeme} {c : Cell} {row : List Cell} {op : Operator}

theorem Fits.operator_old (hfit : Fits before (c :: row))
    (haccess : (c.lexeme.2.head?.any Text.isAsciiLetter && endsAccess before.reverse) = false)
    (hternary : c.lexeme.2 = ['?'] → ∀ d ∈ row.head?, d.lexeme ≠ (.punctuation, [':']))
    (hop : op ∈ OperatorTable.default.operators) {q' : List Char}
    (h : op.after? (rowText Cell.new (c :: row)) = some q') :
    ∃ q, op.after? (rowText Cell.old (c :: row)) = some q := by
  obtain ⟨hwords, hend⟩ := Operator.after?_eq_some_iff.1 h
  have husual := isUsual_of_mem_default hop
  unfold Operator.isUsual at husual
  split at husual
  · rename_i w hw
    simp only [Bool.and_eq_true, Bool.not_eq_true', List.isEmpty_eq_false_iff, List.all_eq_true,
      beq_iff_eq, Bool.or_eq_true] at husual
    obtain ⟨⟨⟨hne, hblank⟩, hneeds⟩, hseam⟩ := husual
    rw [hw] at hwords
    have htext := Operator.afterWords?_singleton.1 hwords
    have hsolid : ∀ a ∈ w, Text.isLayout a = false := by
      intro a ha
      cases hlayout : Text.isLayout a with
      | false => rfl
      | true =>
        have := hblank a ha
        rw [isBlank_of_isLayout hlayout] at this
        cases this
    rcases word_old hfit hsolid hne htext with ⟨q, hq, hboundary⟩ | hstraddles
    · refine ⟨q, Operator.after?_eq_some_iff.2 ⟨?_, fun hneeds' => ?_⟩⟩
      · rw [hw]
        exact Operator.afterWords?_singleton.2 hq
      · exact hboundary (by rw [← hneeds]; exact hneeds') (hend hneeds')
    · exfalso
      rcases hseam with hseam | hseam
      · rw [hstraddles.hasSeam hfit] at hseam
        cases hseam
      have hbitwise : ∀ o ∈ ["or", "xor", "and"].map String.toList, w ≠ 'b' :: '-' :: o := by
        rintro o ho rfl
        have hhead := head?_of_prefix_rowText hfit.1.value hne ⟨q', htext.symm⟩
        have hfree : endsAccess before.reverse = false := by
          rw [hhead] at haccess
          exact haccess
        have hletter : Operator.atBoundary q' = true := by
          refine hend (hneeds.trans ?_)
          simp only [List.map_cons, List.map_nil, List.mem_cons, List.not_mem_nil, or_false] at ho
          rcases ho with rfl | rfl | rfl <;> rfl
        exact not_straddles_bitwise hfit ho hfree htext hletter hstraddles
      simp only [seamWords, List.map_cons, List.map_nil, List.contains_cons, List.contains_nil,
        Bool.or_false, Bool.or_eq_true, beq_iff_eq] at hseam
      rcases hseam with rfl | rfl | rfl | rfl | rfl
      · exact not_straddles_dots hfit (.inl rfl) hstraddles
      · exact not_straddles_ternary hfit hternary hstraddles
      · exact hbitwise "or".toList (by simp) rfl
      · exact hbitwise "xor".toList (by simp) rfl
      · exact hbitwise "and".toList (by simp) rfl
  · rename_i w₁ w₂ hw
    simp only [Bool.and_eq_true, Bool.not_eq_true', List.isEmpty_eq_false_iff, List.all_eq_true]
      at husual
    obtain ⟨⟨⟨⟨hne₁, hw₁⟩, hne₂⟩, hw₂⟩, hneeds⟩ := husual
    rw [hw] at hwords
    obtain ⟨q, hq, hboundary⟩ := hfit.twoWords_old hw₁ hne₁ hw₂ hne₂ hwords (hend hneeds)
    exact ⟨q, Operator.after?_eq_some_iff.2 ⟨by rw [hw]; exact hq, fun _ => hboundary⟩⟩
  · cases husual

theorem Fits.atBoundary_new (hfit : Fits before (c :: row))
    (hletter : c.lexeme.2.getLast?.any Char.isAlpha = true) :
    Operator.atBoundary (c.new ++ rowText Cell.new row) = true := by
  refine atBoundary_row hfit.1.new hfit.2 fun hnew d hd => ?_
  by_cases hold : c.old = []
  · exact hfit.1.apart hold hletter d hd
  · rcases Bool.or_eq_true_iff.1 (hfit.1.closes hold hnew d hd) with hafter | hafter
    · have hvalue := Closing.after_value hafter
      simp only [List.map_cons, List.map_nil, List.mem_cons, List.not_mem_nil, or_false] at hvalue
      rcases hvalue with h | h | h | h | h | h | h | h | h <;> rw [h] at hletter <;> cases hletter
    · cases hhead : d.lexeme.2.head? with
      | none => rfl
      | some b =>
        have hmem := Closing.before_head hafter hhead
        simp at hmem
        rcases hmem with rfl | rfl | rfl | rfl | rfl | rfl | rfl <;> decide +kernel

theorem Fits.operator_new (hfit : Fits before (c :: row))
    (hop : op ∈ OperatorTable.default.operators)
    (h : op.after? (c.lexeme.2 ++ (c.old ++ rowText Cell.old row)) =
      some (c.old ++ rowText Cell.old row)) :
    op.after? (c.lexeme.2 ++ (c.new ++ rowText Cell.new row)) =
      some (c.new ++ rowText Cell.new row) := by
  obtain ⟨hwords, -⟩ := Operator.after?_eq_some_iff.1 h
  have husual := isUsual_of_mem_default hop
  unfold Operator.isUsual at husual
  split at husual
  · rename_i w hw
    simp only [Bool.and_eq_true, Bool.not_eq_true', List.isEmpty_eq_false_iff, List.all_eq_true,
      beq_iff_eq, Bool.or_eq_true] at husual
    obtain ⟨⟨⟨hne, -⟩, hneeds⟩, -⟩ := husual
    rw [hw] at hwords
    have hv : c.lexeme.2 = w := List.append_cancel_right (Operator.afterWords?_singleton.1 hwords)
    refine Operator.after?_eq_some_iff.2 ⟨?_, fun hneeds' => hfit.atBoundary_new ?_⟩
    · rw [hw, hv]
      exact Operator.afterWords?_singleton.2 rfl
    · rw [hv, ← hneeds, hneeds']
  · rename_i w₁ w₂ hw
    simp only [Bool.and_eq_true, Bool.not_eq_true', List.isEmpty_eq_false_iff, List.all_eq_true]
      at husual
    obtain ⟨⟨⟨⟨-, -⟩, hne₂⟩, hw₂⟩, -⟩ := husual
    have hblank : w₂.head?.any Text.isBlank = false := by
      cases hhead : w₂.head? with
      | none => rfl
      | some a =>
        exact ((default_proper op hop).2 w₂ (by simp [hw])).2 a (List.mem_of_head? hhead)
    rw [hw] at hwords
    obtain ⟨gap, hgap, hall, htext⟩ := (Operator.afterWords?_pair hblank hne₂).1 hwords
    have hv : c.lexeme.2 = w₁ ++ (gap ++ w₂) := by
      have hsame : c.lexeme.2 ++ (c.old ++ rowText Cell.old row) =
          w₁ ++ (gap ++ w₂) ++ (c.old ++ rowText Cell.old row) := by
        rw [htext]
        simp only [List.append_assoc]
      exact List.append_cancel_right hsame
    refine Operator.after?_eq_some_iff.2 ⟨?_, fun _ => hfit.atBoundary_new ?_⟩
    · rw [hw]
      refine (Operator.afterWords?_pair hblank hne₂).2 ⟨gap, hgap, hall, ?_⟩
      rw [hv]
      simp only [List.append_assoc]
    · rw [hv, List.getLast?_append, List.getLast?_append, List.getLast?_eq_some_getLast hne₂,
        Option.some_or, Option.some_or]
      exact hw₂ _ (List.getLast_mem hne₂)
  · cases husual

end Operators

/-! ### Names -/

theorem continuesName_of_isLayout (h : Text.isLayout a = true) :
    Lexeme.continuesName a = false := by
  simpa using of_isLayout (p := (!Lexeme.continuesName ·)) rfl h

theorem Fits.name (hfit : Fits before (c :: row))
    (h : Lexeme.runLength Lexeme.continuesName
      (c.lexeme.2 ++ (c.old ++ rowText Cell.old row)) = c.lexeme.2.length) :
    Lexeme.runLength Lexeme.continuesName
      (c.lexeme.2 ++ (c.new ++ rowText Cell.new row)) = c.lexeme.2.length := by
  rw [Lexeme.runLength_append_eq_iff] at h ⊢
  obtain ⟨hname, hstop⟩ := h
  refine ⟨hname, fun a ha => ?_⟩
  cases hnew : c.new with
  | cons b g =>
    rw [hnew] at ha
    cases ha
    exact continuesName_of_isLayout (hfit.1.new a (by simp [hnew]))
  | nil =>
    rw [hnew, List.nil_append] at ha
    cases row with
    | nil => cases ha
    | cons d row =>
      have hhead : d.lexeme.2.head? = some a := by
        cases hv : d.lexeme.2 with
        | nil => exact absurd hv hfit.2.1.value
        | cons b v =>
          rw [rowText_cons, hv] at ha
          exact ha
      by_cases hold : c.old = []
      · refine hstop a ?_
        rw [hold, List.nil_append, rowText_cons]
        cases hv : d.lexeme.2 with
        | nil => exact absurd hv hfit.2.1.value
        | cons b v =>
          rw [hv] at hhead
          exact hhead
      · rcases Bool.or_eq_true_iff.1 (hfit.1.closes hold hnew d rfl) with hafter | hafter
        · have hvalue := Closing.after_value hafter
          simp only [List.map_cons, List.map_nil, List.mem_cons, List.not_mem_nil, or_false]
            at hvalue
          rcases hvalue with h | h | h | h | h | h | h | h | h <;> rw [h] at hname <;>
            cases hname _ List.mem_cons_self
        · have hmem := Closing.before_head hafter hhead
          simp at hmem
          rcases hmem with rfl | rfl | rfl | rfl | rfl | rfl | rfl <;> rfl

/-! ### The ends of constructs -/

/-- The ends of variables (`k` a brace) or blocks (`k` a percent sign). -/
def endWords (k : Char) : List (List Char) := [[k, '\x7d'], ['-', k, '\x7d'], ['~', k, '\x7d']]

/-- No closing brace stands at the start of a row, and none behind a percent sign if that would make
    the end of a block. -/
def NoBrace (k : Char) : List Cell → Prop
  | [] => True
  | c :: row => c.lexeme.2 ≠ ['\x7d'] ∧
      (k = '%' → c.lexeme.2 = ['%'] → ∀ d ∈ row.head?, d.lexeme.2.head? ≠ some '\x7d')

section Ends

variable {before : List Lexeme} {c : Cell} {row : List Cell} {k : Char}

theorem not_straddles_end (hfit : Fits before row) (hk : k = '\x7d' ∨ k = '%')
    (hbrace : NoBrace k row) : ¬Straddles [k, '\x7d'] row := by
  intro h
  cases row with
  | nil => cases h
  | cons c row =>
    obtain ⟨hp, -, -, d, rest, rfl, hhead⟩ := h.pair hfit
    rcases hk with rfl | rfl
    · exact hbrace.1 hp
    · exact hbrace.2 rfl hp d rfl hhead

theorem not_straddles_trimmed_end (hfit : Fits before (c :: row)) (hk : k = '\x7d' ∨ k = '%')
    {m : Char} (hm : m = '-' ∨ m = '~')
    (hmarked : c.lexeme.2.head?.any Delimiter.isTrimMarker = true → NoBrace k row) :
    ¬Straddles [m, k, '\x7d'] (c :: row) := by
  intro h
  obtain ⟨hnew, p, q, hp, hpq, hne, hcases⟩ := h.uncons hfit
  have hbrace : NoBrace k row := by
    refine hmarked ?_
    rcases hm with rfl | rfl <;> rw [hp] <;> rfl
  -- A closing brace behind a closed gap is a lexeme of its own, and there is none.
  have hbefore : ∀ {d : Cell} {rest : List Cell}, row = d :: rest →
      d.lexeme.2.head? = some '\x7d' → Closing.all.before d.lexeme = false := by
    rintro d rest rfl hhead
    cases hclose : Closing.all.before d.lexeme with
    | false => rfl
    | true =>
      have hvalue := Closing.before_value hclose
      simp only [List.map_cons, List.map_nil, List.mem_cons, List.not_mem_nil, or_false] at hvalue
      rcases hvalue with h | h | h | h | h | h | h | h <;> rw [h] at hhead <;> cases hhead
      exact absurd h hbrace.1
  rcases List.cons_eq_append_iff.1 hpq with ⟨rfl, rfl⟩ | ⟨p', rfl, hpq'⟩
  · rcases hcases with ⟨hold, d, rest, rfl, hq⟩ | ⟨-, h⟩
    · have hhead := head?_of_prefix_rowText hfit.2.1.value hne hq
      rw [rowText_cons] at hq
      rcases hm with rfl | rfl
      · -- A minus: the end behind it would trim, and is no lexeme of several parts.
        cases hv : d.lexeme.2 with
        | nil => exact hfit.2.1.value hv
        | cons a v =>
          rw [hv] at hhead hq
          cases hhead
          cases v with
          | nil =>
            rcases hk with rfl | rfl
            · exact hbrace.1 hv
            · obtain ⟨-, e, rest', rfl, he⟩ := hfit.2.next (a := '\x7d') rfl
                (by simpa [List.cons_prefix_cons] using hq)
              exact hbrace.2 rfl hv e rfl he
          | cons b v =>
            obtain rfl : b = '\x7d' := by
              simpa [List.cons_prefix_cons, eq_comm] using hq
            have hweld : welds before (((c :: d :: rest).take 2).map Cell.lexeme) = true := by
              rcases hk with rfl | rfl <;> simp [welds, weldsEnd, hp, hv]
            exact hold (hfit.1.unwelded 2 hweld (by simp [hnew]) c (by simp))
      · rcases Bool.or_eq_true_iff.1 (hfit.1.closes hold hnew d rfl) with hafter | hafter
        · have hvalue := Closing.after_value hafter
          rw [hp] at hvalue
          simp at hvalue
        · rcases hk with rfl | rfl
          · rw [hbefore rfl hhead] at hafter
            cases hafter
          · have hmem := Closing.before_head hafter hhead
            simp at hmem
    · exact not_straddles_end hfit.2 hk hbrace h
  · rcases List.cons_eq_append_iff.1 hpq' with ⟨rfl, rfl⟩ | ⟨p'', rfl, hnil⟩
    rotate_left
    · exact hne (List.append_eq_nil_iff.1 hnil.symm).2
    rcases hcases with ⟨hold, d, rest, rfl, hq⟩ | ⟨-, h⟩
    · rcases Bool.or_eq_true_iff.1 (hfit.1.closes hold hnew d rfl) with hafter | hafter
      · have hvalue := Closing.after_value hafter
        rw [hp] at hvalue
        rcases hm with rfl | rfl <;> simp at hvalue
      · rw [hbefore rfl (head?_of_prefix_rowText hfit.2.1.value hne hq)] at hafter
        cases hafter
    · exact not_straddles_singleton hfit.2 h

theorem Fits.endWords_old (hfit : Fits before (c :: row)) (hk : k = '\x7d' ∨ k = '%')
    (hbrace : NoBrace k (c :: row))
    (hbrace' : c.lexeme.2.head?.any Delimiter.isTrimMarker = true → NoBrace k row)
    (h : ∀ w ∈ endWords k, ¬w <+: c.lexeme.2 ++ (c.old ++ rowText Cell.old row)) :
    ∀ w ∈ endWords k, ¬w <+: c.lexeme.2 ++ (c.new ++ rowText Cell.new row) := by
  rintro w hw ⟨q', hq'⟩
  have hstraddles : ¬Straddles w (c :: row) := by
    simp only [endWords, List.mem_cons, List.not_mem_nil, or_false] at hw
    rcases hw with rfl | rfl | rfl
    · exact not_straddles_end hfit hk hbrace
    · exact not_straddles_trimmed_end hfit hk (.inl rfl) hbrace'
    · exact not_straddles_trimmed_end hfit hk (.inr rfl) hbrace'
  have hchars : w ≠ [] ∧ ∀ a ∈ w, Text.isLayout a = false := by
    simp only [endWords, List.mem_cons, List.not_mem_nil, or_false] at hw
    rcases hk with rfl | rfl <;> rcases hw with rfl | rfl | rfl <;> simp [Text.isLayout]
  rcases word_old hfit hchars.2 hchars.1 (by rw [rowText_cons, hq']) with ⟨q, hq, -⟩ | hcrossed
  · exact h w hw ⟨q, by rw [← rowText_cons, hq]⟩
  · exact hstraddles hcrossed

/-- No construct ends in the new text that does not end in the old one. -/
theorem Fits.stop (hfit : Fits before (c :: row)) {frame : Frame}
    (hbrace : hasOpenBracket frame.brackets = false → ∀ k, frame.ends = endWords k →
      NoBrace k (c :: row) ∧
        (c.lexeme.2.head?.any Delimiter.isTrimMarker = true → NoBrace k row))
    (h : frame.endAt? (c.lexeme.2 ++ (c.old ++ rowText Cell.old row)) = none) :
    frame.endAt? (c.lexeme.2 ++ (c.new ++ rowText Cell.new row)) = none := by
  rw [Frame.endAt?_eq_none_iff] at h ⊢
  intro hopen
  cases frame with
  | «variable» bs =>
    obtain ⟨hb, hb'⟩ := hbrace hopen '\x7d' rfl
    exact hfit.endWords_old (.inl rfl) hb hb' (h hopen)
  | block name bs =>
    obtain ⟨hb, hb'⟩ := hbrace hopen '%' rfl
    exact hfit.endWords_old (.inr rfl) hb hb' (h hopen)
  | quote => exact nofun
  | interpolation bs =>
    intro w hw hpre
    refine h hopen w hw ?_
    rw [List.mem_singleton.1 hw] at hpre ⊢
    cases hv : c.lexeme.2 with
    | nil => exact absurd hv hfit.1.value
    | cons a v =>
      rw [hv] at hpre
      simpa [List.cons_prefix_cons] using hpre

end Ends

/-! ### All of it -/

theorem Fits.word_none {w : List Char} (hfit : Fits before (c :: row))
    (hsolid : ∀ a ∈ w, Text.isLayout a = false) (hne : w ≠ [])
    (hstraddles : ¬Straddles w (c :: row))
    (h : Text.after? w (c.lexeme.2 ++ (c.old ++ rowText Cell.old row)) = none) :
    Text.after? w (c.lexeme.2 ++ (c.new ++ rowText Cell.new row)) = none := by
  cases hafter : Text.after? w (c.lexeme.2 ++ (c.new ++ rowText Cell.new row)) with
  | none => rfl
  | some q' =>
    have hnew : rowText Cell.new (c :: row) = w ++ q' := by
      rw [rowText_cons, Text.after?_eq_some_iff.1 hafter]
    rcases word_old hfit hsolid hne hnew with ⟨q, hq, -⟩ | hcrossed
    · rw [Text.after?_eq_some_iff.2 (by rw [← rowText_cons, hq])] at h
      cases h
    · exact absurd hcrossed hstraddles


/-- A lexeme of the old text is read in the new one. -/
theorem Fits.transfer (hfit : Fits before (c :: row))
    (hsolid : c.lexeme.2.head?.any Text.isLayout = false)
    (hternary : c.lexeme.2 = ['?'] → ∀ d ∈ row.head?, d.lexeme ≠ (.punctuation, [':'])) :
    Transfer OperatorTable.default (endsAccess before.reverse) c.lexeme.2
      (c.old ++ rowText Cell.old row) (c.new ++ rowText Cell.new row) where
  spread := hfit.word_none (by simp [Text.isLayout]) (by decide) (not_straddles_dots hfit (.inr rfl))
  arrow := by
    refine hfit.word_none (by simp [Text.isLayout]) (by decide) fun h => ?_
    have := h.hasSeam hfit
    revert this
    decide
  others := by
    intro haccess op hop hnone
    cases hafter : op.after? (c.lexeme.2 ++ (c.new ++ rowText Cell.new row)) with
    | none => rfl
    | some q' =>
      obtain ⟨q, hq⟩ := hfit.operator_old haccess hternary hop (by rw [rowText_cons]; exact hafter)
      rw [rowText_cons, hnone] at hq
      cases hq
  operator := fun op hop h => hfit.operator_new hop h
  name := hfit.name
  number := hfit.number
  layout := by
    intro h
    rw [hsolid] at h
    cases h

end TwigStyle
