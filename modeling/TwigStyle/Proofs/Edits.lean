import TwigStyle.Edit.Buffer

/-!
# What an edit can do

A single write ends in one of three ways: it is refused and nothing happens, it is an oscillation
and the pass is in conflict, or the value is recorded.  Taking back a recorded value restores the
buffer exactly, history included, so the same three ways are all that a change set can end in:
`attempt_cases`.

Everything that rules ask of a buffer comes down to `attempt`, once the change set they open is
closed again.
-/

namespace TwigStyle

namespace EditBuffer

variable {b : EditBuffer} {i j : Nat} {text : List Char} {edits staged : List (Nat × List Char)}
  {P : EditBuffer → Prop} {c : Command} {changes : List (Nat × Insertion)}

/-! ### Single writes -/

/-- The value at an index is there and was not edited in this pass. -/
def IsFree (b : EditBuffer) (i : Nat) : Prop :=
  i < b.values.size ∧ b.edited[i]?.getD false = false

instance (b : EditBuffer) (i : Nat) : Decidable (b.IsFree i) :=
  inferInstanceAs (Decidable (_ ∧ _))

/-- Writing the text would bring back what the pass right before replaced. -/
def Oscillates (b : EditBuffer) (i : Nat) (text : List Char) : Prop :=
  ∃ w ∈ b.lastWriting? i, text = w.previous ∧ w.pass + 1 = b.passes

instance (b : EditBuffer) (i : Nat) (text : List Char) : Decidable (b.Oscillates i text) :=
  inferInstanceAs (Decidable (∃ w ∈ b.lastWriting? i, _))

/-- What is remembered of a write. -/
def writing (b : EditBuffer) (i : Nat) (text : List Char) : Writing :=
  ⟨match b.lastWriting? i with
    | some w => w.current
    | none => b.values[i]?.getD [],
    text, b.passes⟩

/-- The buffer after a write that is accepted. -/
def record (b : EditBuffer) (i : Nat) (text : List Char) : EditBuffer :=
  b.commit i text (b.writing i text)

theorem write_of_inConflict (h : b.inConflict = true) : b.write i text = (false, b) := by
  simp only [write, h, if_true]

theorem write_of_not_isFree (h : ¬b.IsFree i) : b.write i text = (false, b) := by
  by_cases hconflict : b.inConflict = true
  · exact write_of_inConflict hconflict
  · by_cases hedited : b.edited[i]?.getD false = true
    · simp [write, hconflict, hedited]
    · have hsize : ¬i < b.values.size := fun hlt => h ⟨hlt, by simpa using hedited⟩
      simp [write, hconflict, hedited, Array.getElem?_eq_none (Nat.le_of_not_lt hsize)]

theorem write_of_isFree (hconflict : b.inConflict = false) (h : b.IsFree i) :
    b.write i text =
      if b.Oscillates i text then (false, { b with inConflict := true })
      else (true, b.record i text) := by
  obtain ⟨hlt, hedited⟩ := h
  have hvalue : b.values[i]? = some b.values[i] := Array.getElem?_eq_getElem hlt
  cases hlast : b.lastWriting? i with
  | none =>
    have hno : ¬b.Oscillates i text := by
      rintro ⟨w, hw, -⟩
      rw [hlast] at hw
      cases hw
    simp [write, hconflict, hedited, hvalue, hlast, hno, record, writing]
  | some w =>
    have hiff : b.Oscillates i text ↔ text = w.previous ∧ w.pass + 1 = b.passes := by
      simp [Oscillates, hlast]
    simp [write, hconflict, hedited, hvalue, hlast, hiff, record, writing]

/-! ### Taking back -/

theorem setIfInBounds_restore {α : Type} (a : Array α) (i : Nat) (x y : α)
    (h : ∀ z, a[i]? = some z → z = y) : (a.setIfInBounds i x).setIfInBounds i y = a := by
  rw [Array.setIfInBounds_setIfInBounds]
  apply Array.ext_getElem?
  intro j
  rw [Array.getElem?_setIfInBounds]
  split
  · rename_i hij
    subst hij
    split
    · rename_i hlt
      rw [Array.getElem?_eq_getElem hlt, h _ (Array.getElem?_eq_getElem hlt)]
    · rename_i hlt
      rw [Array.getElem?_eq_none (Nat.le_of_not_lt hlt)]
  · rfl

theorem takeBack_record (h : b.IsFree i) : (b.record i text).takeBack (b.undoOf i) = b := by
  have hvalues : (b.values.setIfInBounds i text).setIfInBounds i (b.values[i]?.getD []) =
      b.values :=
    setIfInBounds_restore _ _ _ _ fun z hz => by rw [hz]; rfl
  have hflags : (b.edited.setIfInBounds i true).setIfInBounds i false = b.edited :=
    setIfInBounds_restore _ _ _ _ fun z hz => by rw [← h.2, hz]; rfl
  have hhistory : (b.history.setIfInBounds i (some (b.writing i text))).setIfInBounds i
      (b.lastWriting? i) = b.history :=
    setIfInBounds_restore _ _ _ _ fun z hz => by rw [lastWriting?, hz]; rfl
  simp only [takeBack, record, commit, undoOf, hvalues, hflags, hhistory, Nat.add_sub_cancel]

theorem takeBack_inConflict (b : EditBuffer) (u : Undo) (yes : Bool) :
    { b with inConflict := yes }.takeBack u = { b.takeBack u with inConflict := yes } := rfl

theorem foldl_takeBack_inConflict (b : EditBuffer) (undo : List Undo) (yes : Bool) :
    undo.foldl takeBack { b with inConflict := yes } =
      { undo.foldl takeBack b with inConflict := yes } := by
  induction undo generalizing b with
  | nil => rfl
  | cons u undo ih => rw [List.foldl_cons, List.foldl_cons, takeBack_inConflict, ih]

/-! ### Other indices -/

theorem isFree_record_of_ne (h : j ≠ i) : (b.record i text).IsFree j ↔ b.IsFree j := by
  have hflag : (b.edited.setIfInBounds i true)[j]? = b.edited[j]? :=
    Array.getElem?_setIfInBounds_ne (Ne.symm h)
  simp only [IsFree, record, commit, Array.size_setIfInBounds, hflag]

theorem lastWriting?_record_of_ne (h : j ≠ i) :
    (b.record i text).lastWriting? j = b.lastWriting? j := by
  simp only [lastWriting?, record, commit, Array.getElem?_setIfInBounds_ne (Ne.symm h)]

theorem oscillates_record_of_ne {text' : List Char} (h : j ≠ i) :
    (b.record i text).Oscillates j text' ↔ b.Oscillates j text' := by
  unfold Oscillates
  rw [lastWriting?_record_of_ne h]
  rfl

/-! ### Change sets -/

/-- The buffer after edits that are all accepted. -/
def recordAll (b : EditBuffer) (edits : List (Nat × List Char)) : EditBuffer :=
  edits.foldl (fun b e => b.record e.1 e.2) b

@[simp] theorem recordAll_cons (b : EditBuffer) (e : Nat × List Char)
    (edits : List (Nat × List Char)) :
    b.recordAll (e :: edits) = (b.record e.1 e.2).recordAll edits := rfl

/-- Staged edits are all recorded, or refused because of a value edited before, or they bring a
    conflict.  `b₀` is what taking back the edits made so far leads to. -/
theorem applyStaged_cases {b₀ : EditBuffer} {undo : List Undo} (hundo : undo.foldl takeBack b = b₀)
    (hconflict : b.inConflict = false) (hnodup : (edits.map Prod.fst).Nodup) :
    (b.applyStaged undo edits = (true, b.recordAll edits) ∧
      ∀ e ∈ edits, b.IsFree e.1 ∧ ¬b.Oscillates e.1 e.2) ∨
    (b.applyStaged undo edits = (false, b₀) ∧ ∃ e ∈ edits, ¬b.IsFree e.1) ∨
    (b.applyStaged undo edits = (false, { b₀ with inConflict := true }) ∧
      ∃ e ∈ edits, b.IsFree e.1 ∧ b.Oscillates e.1 e.2) := by
  induction edits generalizing b undo with
  | nil => exact .inl ⟨rfl, nofun⟩
  | cons e edits ih =>
    obtain ⟨i, text⟩ := e
    rw [List.map_cons, List.nodup_cons] at hnodup
    obtain ⟨hnew, hnodup⟩ := hnodup
    by_cases hfree : b.IsFree i
    · by_cases hosc : b.Oscillates i text
      · -- The first edit already brings the conflict.
        refine .inr (.inr ⟨?_, (i, text), List.mem_cons_self, hfree, hosc⟩)
        simp only [applyStaged, write_of_isFree hconflict hfree, if_pos hosc]
        rw [foldl_takeBack_inConflict, hundo]
      · -- The first edit is recorded; the other edits are about other indices.
        have hother : ∀ e ∈ edits, e.1 ≠ i := by
          intro e he heq
          exact hnew (List.mem_map.2 ⟨e, he, heq⟩)
        have hundo' : (b.undoOf i :: undo).foldl takeBack (b.record i text) = b₀ := by
          rw [List.foldl_cons, takeBack_record hfree, hundo]
        have hstep : b.applyStaged undo ((i, text) :: edits) =
            (b.record i text).applyStaged (b.undoOf i :: undo) edits := by
          simp only [applyStaged, write_of_isFree hconflict hfree, if_neg hosc]
        rw [hstep, recordAll_cons]
        rcases ih hundo' hconflict hnodup with ⟨heq, hall⟩ | ⟨heq, e, he, hbad⟩ | ⟨heq, e, he, hbad⟩
        · refine .inl ⟨heq, ?_⟩
          intro e he
          rcases List.mem_cons.1 he with rfl | he
          · exact ⟨hfree, hosc⟩
          · have := hall e he
            rwa [isFree_record_of_ne (hother e he), oscillates_record_of_ne (hother e he)] at this
        · rw [isFree_record_of_ne (hother e he)] at hbad
          exact .inr (.inl ⟨heq, e, List.mem_cons_of_mem _ he, hbad⟩)
        · rw [isFree_record_of_ne (hother e he), oscillates_record_of_ne (hother e he)] at hbad
          exact .inr (.inr ⟨heq, e, List.mem_cons_of_mem _ he, hbad⟩)
    · refine .inr (.inl ⟨?_, (i, text), List.mem_cons_self, hfree⟩)
      simp only [applyStaged, write_of_not_isFree hfree, hundo]

/-- Try some edits as one change. -/
def attempt (b : EditBuffer) (edits : List (Nat × List Char)) : EditBuffer :=
  if b.inConflict then b else (b.applyStaged [] edits).2

theorem attempt_of_inConflict (h : b.inConflict = true) : b.attempt edits = b := by
  simp only [attempt, h, if_true]

/-- **What a change can do.** It is recorded as a whole, or refused because a value was edited
    before, or it brings the pass in conflict. -/
theorem attempt_cases (hconflict : b.inConflict = false) (hnodup : (edits.map Prod.fst).Nodup) :
    (b.attempt edits = b.recordAll edits ∧ ∀ e ∈ edits, b.IsFree e.1 ∧ ¬b.Oscillates e.1 e.2) ∨
    (b.attempt edits = b ∧ ∃ e ∈ edits, ¬b.IsFree e.1) ∨
    (b.attempt edits = { b with inConflict := true } ∧
      ∃ e ∈ edits, b.IsFree e.1 ∧ b.Oscillates e.1 e.2) := by
  have hattempt : b.attempt edits = (b.applyStaged [] edits).2 := by
    simp only [attempt, hconflict, Bool.false_eq_true, if_false]
  have hstart : ([] : List Undo).foldl takeBack b = b := rfl
  rw [hattempt]
  rcases applyStaged_cases hstart hconflict hnodup with ⟨h, hall⟩ | ⟨h, hbad⟩ | ⟨h, hbad⟩
  · exact .inl ⟨by rw [h], hall⟩
  · exact .inr (.inl ⟨by rw [h], hbad⟩)
  · exact .inr (.inr ⟨by rw [h], hbad⟩)

theorem attempt_keeps (hnodup : (edits.map Prod.fst).Nodup) (h : P b)
    (hrecord : b.inConflict = false → (∀ e ∈ edits, b.IsFree e.1) → P (b.recordAll edits))
    (hbad : P { b with inConflict := true }) : P (b.attempt edits) := by
  cases hconflict : b.inConflict with
  | true => rwa [attempt_of_inConflict hconflict]
  | false =>
    rcases attempt_cases hconflict hnodup with ⟨heq, hall⟩ | ⟨heq, -⟩ | ⟨heq, -⟩ <;> rw [heq]
    · exact hrecord hconflict fun e he => (hall e he).1
    · exact h
    · exact hbad

theorem recordAll_keeps (h : P b) (hstep : ∀ b, P b → ∀ e ∈ edits, P (b.record e.1 e.2)) :
    P (b.recordAll edits) := by
  induction edits generalizing b with
  | nil => exact h
  | cons e edits ih =>
    exact ih (hstep b h e List.mem_cons_self) fun b hb d hd =>
      hstep b hb d (List.mem_cons_of_mem e hd)

/-! ### Commands -/

theorem runAll_cons (b : EditBuffer) (c : Command) (cs : List Command) :
    (b.runAll (c :: cs)).2 = ((b.run c).2.runAll cs).2 := rfl

theorem runAll_append (b : EditBuffer) (cs ds : List Command) :
    (b.runAll (cs ++ ds)).2 = ((b.runAll cs).2.runAll ds).2 := by
  induction cs generalizing b with
  | nil => rfl
  | cons c cs ih => rw [List.cons_append, runAll_cons, ih, runAll_cons]

/-- In conflict a buffer changes no more, save that a change set may be closed. -/
theorem run_of_inConflict (h : b.inConflict = true) (hc : c ≠ .endSet) : (b.run c).2 = b := by
  cases c with
  | replace => simp [run, answer, replace, h]
  | append i => cases hp : b.pending? i <;> simp [run, answer, modify, hp, replace, h]
  | prepend i => cases hp : b.pending? i <;> simp [run, answer, modify, hp, replace, h]
  | beginSet => simp [run, beginSet, h]
  | endSet => exact absurd rfl hc
  | value | passes | lineBreak => rfl

theorem runAll_of_inConflict (hidle : b.changeSet = none) (h : b.inConflict = true)
    (cs : List Command) : (b.runAll cs).2 = b := by
  induction cs with
  | nil => rfl
  | cons c cs ih =>
    have hrun : (b.run c).2 = b := by
      by_cases hc : c = .endSet
      · subst hc
        simp [run, answer, endSet, hidle]
      · exact run_of_inConflict h hc
    rw [runAll_cons, hrun, ih]

theorem stage_of_notMem (h : i ∉ staged.map Prod.fst) :
    stage i text staged = staged ++ [(i, text)] := by
  induction staged with
  | nil => rfl
  | cons e staged ih =>
    rw [List.map_cons, List.mem_cons, not_or] at h
    simp only [stage, if_neg (Ne.symm h.1), ih h.2, List.cons_append]

theorem runAll_replaces (hconflict : b.inConflict = false) (hset : b.changeSet = some staged)
    (hnodup : (staged.map Prod.fst ++ changes.map Prod.fst).Nodup) :
    (b.runAll (changes.map fun e => .replace e.1 e.2)).2 =
      { b with
        changeSet := some (staged ++ changes.map fun e => (e.1, b.insertionText e.2)) } := by
  induction changes generalizing b staged with
  | nil =>
    simp only [List.map_nil, List.append_nil, ← hset]
    rfl
  | cons e changes ih =>
    obtain ⟨i, what⟩ := e
    have hnew : i ∉ staged.map Prod.fst := by
      intro hmem
      exact (List.nodup_append.1 hnodup).2.2 i hmem i (by simp) rfl
    have hrun : (b.run (.replace i what)).2 =
        { b with changeSet := some (staged ++ [(i, b.insertionText what)]) } := by
      simp [run, answer, replace, hconflict, hset, stage_of_notMem hnew]
    have hrest := ih (b := { b with changeSet := some (staged ++ [(i, b.insertionText what)]) })
      hconflict rfl (by simpa using hnodup)
    rw [List.map_cons, runAll_cons, hrun, hrest]
    simp only [List.map_cons, List.append_assoc, List.singleton_append]
    rfl

theorem run_endSet (hconflict : b.inConflict = false) (hidle : b.changeSet = none) :
    ({ b with changeSet := some staged }.run .endSet).2 = b.attempt staged := by
  cases b
  cases hidle
  cases hconflict
  rfl

theorem runAll_replaceSet (hidle : b.changeSet = none) (hnodup : (changes.map Prod.fst).Nodup) :
    (b.runAll (.beginSet :: changes.map (fun e => .replace e.1 e.2) ++ [.endSet])).2 =
      b.attempt (changes.map fun e => (e.1, b.insertionText e.2)) := by
  by_cases hconflict : b.inConflict = true
  · rw [runAll_of_inConflict hidle hconflict, attempt_of_inConflict hconflict]
  · have hconflict : b.inConflict = false := Bool.eq_false_iff.2 hconflict
    have hbegin : (b.run .beginSet).2 = { b with changeSet := some [] } := by
      simp [run, beginSet, hconflict]
    have hnodup' : (([] : List (Nat × List Char)).map Prod.fst ++ changes.map Prod.fst).Nodup := by
      simpa using hnodup
    have hstaged := runAll_replaces (b := { b with changeSet := some [] }) hconflict rfl hnodup'
    rw [List.cons_append, runAll_cons, hbegin, runAll_append, hstaged, runAll_cons]
    exact run_endSet hconflict hidle

theorem attempt_singleton (b : EditBuffer) (i : Nat) (text : List Char) :
    b.attempt [(i, text)] = (b.write i text).2 := by
  by_cases hconflict : b.inConflict = true
  · rw [attempt_of_inConflict hconflict, write_of_inConflict hconflict]
  · simp only [attempt, hconflict, applyStaged]
    rcases b.write i text with ⟨_ | _, b'⟩ <;> rfl

theorem modify_eq (hidle : b.changeSet = none) (f : List Char → List Char) :
    (b.modify i f).2 = b.attempt ((b.values[i]?.map fun v => (i, f v)).toList) := by
  have hpending : b.pending? i = b.values[i]? := by simp [pending?, hidle]
  cases hvalue : b.values[i]? with
  | none =>
    rw [modify, hpending, hvalue]
    by_cases hconflict : b.inConflict = true
    · exact (attempt_of_inConflict hconflict).symm
    · simp [attempt, hconflict, applyStaged]
  | some v =>
    rw [modify, hpending, hvalue]
    change (b.replace i (f v)).2 = b.attempt [(i, f v)]
    rw [attempt_singleton]
    by_cases hconflict : b.inConflict = true
    · simp [replace, hconflict, write_of_inConflict hconflict]
    · simp [replace, hconflict, hidle]

theorem runAll_modifySet {f : List Char → List Char} (hidle : b.changeSet = none)
    (hrun : ∀ b' : EditBuffer, (b'.run c).2 = (b'.modify i f).2) :
    (b.runAll [.beginSet, c, .endSet]).2 =
      b.attempt ((b.values[i]?.map fun v => (i, f v)).toList) := by
  by_cases hconflict : b.inConflict = true
  · rw [runAll_of_inConflict hidle hconflict, attempt_of_inConflict hconflict]
  · have hconflict : b.inConflict = false := Bool.eq_false_iff.2 hconflict
    have hbegin : (b.run .beginSet).2 = { b with changeSet := some [] } := by
      simp [run, beginSet, hconflict]
    have hstaged : ({ b with changeSet := some [] }.run c).2 =
        { b with changeSet := some (b.values[i]?.map fun v => (i, f v)).toList } := by
      rw [hrun]
      cases hvalue : b.values[i]? <;>
        simp [modify, pending?, hvalue, replace, hconflict, stage]
    rw [runAll_cons, hbegin, runAll_cons, hstaged]
    exact run_endSet hconflict hidle

end EditBuffer

end TwigStyle
