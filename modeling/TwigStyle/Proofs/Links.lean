import TwigStyle.Proofs.Apart

/-!
# Rows whose gaps change for a reason

`Link` says what may become of the gap between two lexemes: it is opened or closed only because one of
the two wants it, and a line break stays.  A row of such gaps fits if no lexemes of it run together
(`fits_of_linked`), and then none run together in its new text either (`sticky_old`).
Where no gap is ever closed, every row fits (`fits_of_linked_none`).
-/

namespace TwigStyle

/-- What becomes of the gap between two lexemes. -/
structure Link (cl : Closing) (before : List Lexeme) (c : Cell) (y : Lexeme) : Prop where
  opens : c.old = [] → c.new ≠ [] → (opensAfter c.lexeme || opensBefore y) = true
  closes : c.old ≠ [] → c.new = [] → cl.closes before c.lexeme y = true
  breaks : hasBreak c.old = true → hasBreak c.new = true

/-- Every gap of a row changes for a reason; the last one is free. -/
def Linked (cl : Closing) : List Lexeme → List Cell → Prop
  | before, c :: d :: row => Link cl before c d.lexeme ∧ Linked cl (c.lexeme :: before) (d :: row)
  | _, _ => True

/-- Where a lexeme ends with a letter, the next one does not go on with the word. -/
def Separate : List Cell → Prop
  | [] => True
  | c :: row => (c.old = [] → c.lexeme.2.getLast?.any Char.isAlpha = true →
      ∀ d ∈ row.head?, d.lexeme.2.head?.any Text.isWordChar = false) ∧ Separate row

section

variable {cl : Closing} {before ls : List Lexeme} {c : Cell} {row : List Cell} {y : Lexeme}

theorem Closing.closes_all {x : Lexeme} (h : cl.closes before x y = true) :
    Closing.all.closes before x y = true := by
  obtain ⟨operators, punctuation⟩ := cl
  cases operators <;> cases punctuation <;>
    simp only [closes, after, Closing.before, all, Bool.false_and, Bool.or_false, Bool.false_or,
      Bool.true_and, Bool.or_eq_true] at h ⊢ <;> grind

theorem Link.shuts (h : Link cl before c y) (hnew : cl.shuts before c.lexeme y c.new = true) :
    cl.shuts before c.lexeme y c.old = true := by
  by_cases hold : c.old = []
  · simp [Closing.shuts, hold]
  · have hbreak : hasBreak c.new = false → hasBreak c.old = false := by
      intro hno
      cases hb : hasBreak c.old with
      | false => rfl
      | true =>
        rw [h.breaks hb] at hno
        cases hno
    simp only [Closing.shuts, Bool.or_eq_true, List.isEmpty_iff, Bool.and_eq_true,
      Bool.not_eq_true'] at hnew ⊢
    rcases hnew with hnew | ⟨hno, hcloses⟩
    · exact .inr ⟨hbreak (by rw [hnew]; rfl), h.closes hold hnew⟩
    · exact .inr ⟨hbreak hno, hcloses⟩

theorem Linked.tail (h : Linked cl before (c :: row)) : Linked cl (c.lexeme :: before) row := by
  cases row with
  | nil => trivial
  | cons d row => exact h.2

theorem Linked.shutsAll (h : Linked cl before row) (n : Nat)
    (hnew : cl.shutsAll before ((rowLaid Cell.new row).take n) = true) :
    cl.shutsAll before ((rowLaid Cell.old row).take n) = true := by
  induction row generalizing before n with
  | nil => exact hnew
  | cons c row ih =>
    cases row with
    | nil => cases n <;> simp [Closing.shutsAll]
    | cons d row =>
      rcases n with _ | _ | n
      · exact hnew
      · exact hnew
      · simp only [rowLaid_cons, List.take_succ_cons, Closing.shutsAll, Bool.and_eq_true]
          at hnew ⊢
        exact ⟨h.1.shuts hnew.1, ih h.2 (n + 1) hnew.2⟩

theorem map_fst_take_rowLaid (side : Cell → List Char) (row : List Cell) (n : Nat) :
    ((rowLaid side row).take n).map Prod.fst = (row.take n).map Cell.lexeme := by
  rw [rowLaid, ← List.map_take, List.map_map]
  rfl

/-- Lexemes that run together in the new text ran together in the old one. -/
theorem sticky_old (h : Linked cl before row)
    (hnew : sticky cl before (rowLaid Cell.new row) = true) :
    sticky cl before (rowLaid Cell.old row) = true := by
  induction row generalizing before with
  | nil => cases hnew
  | cons c row ih =>
    rw [rowLaid_cons, sticky, Bool.or_eq_true] at hnew ⊢
    rcases hnew with hnew | hnew
    · refine .inl ?_
      rw [← rowLaid_cons] at hnew ⊢
      obtain ⟨n, hn, hat⟩ := List.any_eq_true.1 hnew
      refine List.any_eq_true.2 ⟨n, hn, ?_⟩
      simp only [map_fst_take_rowLaid, Bool.and_eq_true] at hat ⊢
      exact ⟨hat.1, h.shutsAll n hat.2⟩
    · exact .inr (ih h.tail hnew)

theorem shutsAll_of_nil (n : Nat) (h : ∀ e ∈ (row.take n).dropLast, e.new = []) :
    cl.shutsAll before ((rowLaid Cell.new row).take n) = true := by
  induction row generalizing before n with
  | nil => cases n <;> rfl
  | cons c row ih =>
    cases row with
    | nil => cases n <;> simp [Closing.shutsAll]
    | cons d row =>
      rcases n with _ | _ | n
      · rfl
      · rfl
      · simp only [List.take_succ_cons, List.dropLast_cons_cons, List.mem_cons, forall_eq_or_imp] at h
        simp only [rowLaid_cons, List.take_succ_cons, Closing.shutsAll, Bool.and_eq_true]
        refine ⟨by simp [Closing.shuts, h.1], ih (n + 1) ?_⟩
        simpa only [List.take_succ_cons] using h.2

theorem length_of_welds (h : welds before ls = true) : ls.length ∈ [2, 3, 4] := by
  unfold welds at h
  split at h
  · simp
  · simp
  · simp
  · cases h

theorem Linked.joint (h : Linked cl before (c :: row)) (hseparate : Separate (c :: row))
    (hcell : c.lexeme.2 ≠ [] ∧ IsGap c.old ∧ IsGap c.new)
    (hunwelded : ∀ n, welds before (((c :: row).take n).map Cell.lexeme) = true →
      (∀ e ∈ ((c :: row).take n).dropLast, e.new = []) →
      ∀ e ∈ ((c :: row).take n).dropLast, e.old = []) : Joint before c row := by
  obtain ⟨hvalue, hold, hnew⟩ := hcell
  refine ⟨hvalue, hold, hnew, hseparate.1, ?_, ?_, hunwelded⟩
  · intro hnil hne d hd
    cases row with
    | nil => cases hd
    | cons e row =>
      cases hd
      exact h.1.opens hnil hne
  · intro hne hnil d hd
    cases row with
    | nil => cases hd
    | cons e row =>
      cases hd
      exact Closing.closes_all (h.1.closes hne hnil)

/-- A row whose gaps change for a reason fits, if no lexemes of it run together. -/
theorem fits_of_linked (h : Linked cl before row) (hseparate : Separate row)
    (hcells : ∀ c ∈ row, c.lexeme.2 ≠ [] ∧ IsGap c.old ∧ IsGap c.new)
    (hsticky : sticky cl before (rowLaid Cell.old row) = false) : Fits before row := by
  induction row generalizing before with
  | nil => trivial
  | cons c row ih =>
    rw [rowLaid_cons, sticky, Bool.or_eq_false_iff, ← rowLaid_cons] at hsticky
    refine ⟨h.joint hseparate (hcells c List.mem_cons_self) ?_,
      ih h.tail hseparate.2 (fun d hd => hcells d (List.mem_cons_of_mem c hd)) hsticky.2⟩
    intro n hwelds hshut
    exfalso
    have hlength := length_of_welds hwelds
    rw [List.length_map] at hlength
    have htake : (c :: row).take ((c :: row).take n).length = (c :: row).take n :=
      (List.prefix_iff_eq_take.1 (List.take_prefix n (c :: row))).symm
    generalize hm : ((c :: row).take n).length = m at hlength htake
    rw [← htake] at hwelds hshut
    have hat : stickyAt cl before (rowLaid Cell.old (c :: row)) = true := by
      refine List.any_eq_true.2 ⟨m, hlength, ?_⟩
      rw [map_fst_take_rowLaid, hwelds, h.shutsAll m (shutsAll_of_nil m hshut)]
      rfl
    rw [hat] at hsticky
    cases hsticky.1

theorem Closing.closes_none (before : List Lexeme) (x y : Lexeme) :
    Closing.none.closes before x y = false := by
  simp [closes, after, Closing.before, none]

theorem Linked.old_eq_nil (h : Linked .none before row) (n : Nat) :
    ∀ e ∈ (row.take n).dropLast, e.new = [] → e.old = [] := by
  induction row generalizing before n with
  | nil => simp
  | cons c row ih =>
    cases row with
    | nil => cases n <;> simp
    | cons d row =>
      rcases n with _ | _ | n
      · simp
      · simp
      · intro e he hnew
        simp only [List.take_succ_cons, List.dropLast_cons_cons, List.mem_cons] at he
        rcases he with rfl | he
        · apply Classical.byContradiction
          intro hold
          have hcloses := h.1.closes hold hnew
          rw [Closing.closes_none] at hcloses
          cases hcloses
        · refine ih h.2 (n + 1) e ?_ hnew
          simpa only [List.take_succ_cons] using he

/-- A row whose gaps change for a reason fits, if none is closed. -/
theorem fits_of_linked_none (h : Linked .none before row) (hseparate : Separate row)
    (hcells : ∀ c ∈ row, c.lexeme.2 ≠ [] ∧ IsGap c.old ∧ IsGap c.new) : Fits before row := by
  induction row generalizing before with
  | nil => trivial
  | cons c row ih =>
    refine ⟨h.joint hseparate (hcells c List.mem_cons_self) ?_,
      ih h.tail hseparate.2 fun d hd => hcells d (List.mem_cons_of_mem c hd)⟩
    exact fun n _ hnew e he => h.old_eq_nil n e he (hnew e he)

theorem separate_of_apart {g : List Char} (h : Apart ls [])
    (hlaid : laid ls = (g, rowLaid Cell.old row)) : Separate row := by
  induction row generalizing ls g with
  | nil => trivial
  | cons c row ih =>
    obtain ⟨lay, rest, rfl, -, -, -, hrest⟩ := split_of_laid hlaid
    obtain ⟨-, hfirst, hrest'⟩ := apart_append.1 h
    refine ⟨fun hold hletter d hd => ?_, ih hrest' hrest⟩
    have hboundary := hfirst hletter
    cases row with
    | nil => cases hd
    | cons e row =>
      cases hd
      rw [spell_of_laid hrest, hold, List.nil_append, rowText_cons, List.append_nil] at hboundary
      cases hv : d.lexeme.2 with
      | nil => rfl
      | cons a v =>
        rw [hv] at hboundary
        simpa [Operator.atBoundary] using hboundary

end

end TwigStyle
