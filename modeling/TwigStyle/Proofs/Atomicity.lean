import Mathlib.Data.Finset.Card
import TwigStyle.Proofs.Outcome

/-!
# Change sets are atomic

While a change set is open the values of a buffer stay as they are.  Edits gather in a table of
staged values, one for each index, and what an edit builds on is that table laid over the values
(`overlay`).  Seen through the overlay an edit of an open change set is an edit of one value
(`overlay_staging`), whether the index was staged before, was edited in this pass or lies past the
end.  So the table that is applied in the end holds, at each index that was staged, what the edits
of that index make of its value one after the other (`planned`).

Applying the table is all or nothing by `applyStaged_cases`.
-/

namespace TwigStyle

/-- The index of the value that a command edits. -/
def Command.target? : Command → Option Nat
  | replace i _ => some i
  | append i _ => some i
  | prepend i _ => some i
  | _ => none

/-- Does the command open or close a change set? -/
def Command.isBoundary : Command → Bool
  | beginSet => true
  | endSet => true
  | _ => false

namespace EditBuffer

variable {b : EditBuffer} {i j : Nat} {text : List Char} {v : Option (List Char)} {c : Command}
  {cs : List Command} {staged : List (Nat × List Char)}

/-! ### The plan of some edits -/

/-- What a command makes of the value at an index.  Where there is no value, only a replacement
    makes one. -/
def rewrite (b : EditBuffer) (i : Nat) (v : Option (List Char)) : Command → Option (List Char)
  | .replace j what => if j = i then some (b.insertionText what) else v
  | .append j what => if j = i then v.map (· ++ b.insertionText what) else v
  | .prepend j what => if j = i then v.map (b.insertionText what ++ ·) else v
  | _ => v

/-- What commands make of the value at an index, one after the other. -/
def planned (b : EditBuffer) (cs : List Command) (i : Nat) : Option (List Char) :=
  cs.foldl (b.rewrite i) b.values[i]?

/-- The indices that commands stage a value for: those they edit, apart from indices without a
    value to which they only add. -/
def stagedIndices (b : EditBuffer) (cs : List Command) : Finset Nat :=
  (cs.filterMap Command.target?).toFinset.filter fun i => (b.planned cs i).isSome

theorem rewrite_of_ne (h : c.target? ≠ some i) : b.rewrite i v c = v := by
  cases c with
  | replace j | append j | prepend j =>
    have hne : j ≠ i := fun heq => h (congrArg some heq)
    exact if_neg hne
  | beginSet | endSet | value | passes | lineBreak => rfl

theorem isSome_rewrite (h : v.isSome = true) : (b.rewrite i v c).isSome = true := by
  cases c with
  | replace j => by_cases hj : j = i <;> simp [rewrite, hj, h]
  | append j | prepend j => by_cases hj : j = i <;> simp [rewrite, hj, h]
  | beginSet | endSet | value | passes | lineBreak => exact h

theorem isSome_foldl_rewrite (h : v.isSome = true) : (cs.foldl (b.rewrite i) v).isSome = true := by
  induction cs generalizing v with
  | nil => exact h
  | cons c cs ih => exact ih (isSome_rewrite h)

theorem foldl_rewrite_of_notMem (h : i ∉ cs.filterMap Command.target?) :
    cs.foldl (b.rewrite i) v = v := by
  induction cs generalizing v with
  | nil => rfl
  | cons c cs ih =>
    rw [List.mem_filterMap] at h
    have hc : c.target? ≠ some i := fun heq => h ⟨c, List.mem_cons_self, heq⟩
    have hcs : i ∉ cs.filterMap Command.target? := by
      rw [List.mem_filterMap]
      rintro ⟨d, hd, heq⟩
      exact h ⟨d, List.mem_cons_of_mem c hd, heq⟩
    rw [List.foldl_cons, rewrite_of_ne hc, ih hcs]

/-! ### The table of staged values -/

theorem lookup_stage (i j : Nat) (text : List Char) (staged : List (Nat × List Char)) :
    (stage i text staged).lookup j = if j = i then some text else staged.lookup j := by
  have hcons : ∀ (k : Nat) (t : List Char) (staged : List (Nat × List Char)),
      ((k, t) :: staged).lookup j = if j = k then some t else staged.lookup j := by
    intro k t staged
    by_cases hj : j = k
    · simp [hj]
    · rw [List.lookup_cons, beq_eq_false_iff_ne.2 hj, if_neg hj]
  induction staged with
  | nil => exact hcons i text []
  | cons e staged ih =>
    obtain ⟨k, t⟩ := e
    by_cases hk : k = i
    · subst hk
      rw [stage, if_pos rfl, hcons, hcons]
      split <;> rfl
    · rw [stage, if_neg hk, hcons, hcons, ih]
      by_cases hj : j = k
      · rw [if_pos hj, if_pos hj, if_neg fun hi => hk (hj.symm.trans hi)]
      · rw [if_neg hj, if_neg hj]

theorem map_fst_stage (i : Nat) (text : List Char) (staged : List (Nat × List Char)) :
    (stage i text staged).map Prod.fst =
      if i ∈ staged.map Prod.fst then staged.map Prod.fst else staged.map Prod.fst ++ [i] := by
  split
  · rename_i hmem
    induction staged with
    | nil => cases hmem
    | cons e staged ih =>
      by_cases he : e.1 = i
      · simp [stage, he]
      · have hmem : i ∈ staged.map Prod.fst := by simpa [Ne.symm he] using hmem
        simp [stage, he, ih hmem]
  · rename_i hmem
    rw [stage_of_notMem hmem, List.map_append]
    rfl

theorem mem_stage : j ∈ (stage i text staged).map Prod.fst ↔ j = i ∨ j ∈ staged.map Prod.fst := by
  rw [map_fst_stage]
  split
  · rename_i hmem
    constructor
    · exact .inr
    · rintro (rfl | h)
      · exact hmem
      · exact h
  · rw [List.mem_append, List.mem_singleton]
    exact Or.comm

theorem nodup_stage (h : (staged.map Prod.fst).Nodup) :
    ((stage i text staged).map Prod.fst).Nodup := by
  rw [map_fst_stage]
  split
  · exact h
  · rename_i hmem
    rw [List.nodup_append]
    refine ⟨h, List.nodup_singleton i, ?_⟩
    intro j hj k hk
    rw [List.mem_singleton.1 hk]
    rintro rfl
    exact hmem hj

/-- The staged values laid over the values of the buffer. -/
def overlay (b : EditBuffer) (staged : List (Nat × List Char)) (i : Nat) : Option (List Char) :=
  (staged.lookup i).or b.values[i]?

/-- The staged values after a command. -/
def staging (b : EditBuffer) (staged : List (Nat × List Char)) (c : Command) :
    List (Nat × List Char) :=
  match c.target? with
  | none => staged
  | some i =>
    match b.rewrite i (b.overlay staged i) c with
    | none => staged
    | some text => stage i text staged

theorem run_staging (hconflict : b.inConflict = false) (hc : c.isBoundary = false) :
    ({ b with changeSet := some staged }.run c).2 =
      { b with changeSet := some (b.staging staged c) } := by
  cases c with
  | replace i what =>
    simp [run, answer, EditBuffer.replace, hconflict, staging, Command.target?, rewrite,
      insertionText]
  | append i what =>
    cases hover : (staged.lookup i).or b.values[i]? <;>
      simp [run, answer, modify, pending?, EditBuffer.replace, hconflict, staging, Command.target?,
        rewrite, overlay, hover, insertionText]
  | prepend i what =>
    cases hover : (staged.lookup i).or b.values[i]? <;>
      simp [run, answer, modify, pending?, EditBuffer.replace, hconflict, staging, Command.target?,
        rewrite, overlay, hover, insertionText]
  | beginSet | endSet => cases hc
  | value | passes | lineBreak => rfl

theorem runAll_staging (hconflict : b.inConflict = false) (hcs : ∀ c ∈ cs, c.isBoundary = false) :
    ({ b with changeSet := some staged }.runAll cs).2 =
      { b with changeSet := some (cs.foldl b.staging staged) } := by
  induction cs generalizing staged with
  | nil => rfl
  | cons c cs ih =>
    rw [runAll_cons, run_staging hconflict (hcs c List.mem_cons_self),
      ih fun d hd => hcs d (List.mem_cons_of_mem c hd)]
    rfl

/-! ### What is staged in the end -/

/-- Seen through the overlay, a command edits the one value that it names. -/
theorem overlay_staging (b : EditBuffer) (staged : List (Nat × List Char)) (c : Command) (i : Nat) :
    b.overlay (b.staging staged c) i = b.rewrite i (b.overlay staged i) c := by
  by_cases htarget : c.target? = some i
  · rw [staging, htarget]
    dsimp only
    split
    · rename_i hnone
      -- Only where there is no value is there nothing to stage.
      rw [hnone]
      apply Option.not_isSome_iff_eq_none.1
      intro hsome
      have := isSome_rewrite (b := b) (i := i) (c := c) hsome
      rw [hnone] at this
      cases this
    · rename_i text htext
      rw [htext, overlay, lookup_stage, if_pos rfl, Option.some_or]
  · rw [rewrite_of_ne htarget, staging]
    split
    · rfl
    · rename_i j hj
      have hne : i ≠ j := by
        rintro rfl
        exact htarget hj
      split
      · rfl
      · rw [overlay, lookup_stage, if_neg hne]
        rfl

theorem overlay_foldl_staging (b : EditBuffer) (staged : List (Nat × List Char)) (cs : List Command)
    (i : Nat) :
    b.overlay (cs.foldl b.staging staged) i = cs.foldl (b.rewrite i) (b.overlay staged i) := by
  induction cs generalizing staged with
  | nil => rfl
  | cons c cs ih => rw [List.foldl_cons, ih, overlay_staging, List.foldl_cons]

theorem nodup_foldl_staging (h : (staged.map Prod.fst).Nodup) (cs : List Command) :
    ((cs.foldl b.staging staged).map Prod.fst).Nodup := by
  induction cs generalizing staged with
  | nil => exact h
  | cons c cs ih =>
    apply ih
    unfold staging
    split
    · exact h
    · split
      · exact h
      · exact nodup_stage h

theorem mem_staging :
    i ∈ (b.staging staged c).map Prod.fst ↔
      i ∈ staged.map Prod.fst ∨
        c.target? = some i ∧ (b.rewrite i (b.overlay staged i) c).isSome = true := by
  unfold staging
  split
  · rename_i hnone
    simp [hnone]
  · rename_i j hj
    rw [hj]
    split
    · rename_i hnone
      constructor
      · exact .inl
      · rintro (h | ⟨heq, hsome⟩)
        · exact h
        · cases heq
          rw [hnone] at hsome
          cases hsome
    · rename_i text htext
      rw [mem_stage]
      constructor
      · rintro (rfl | h)
        · exact .inr ⟨rfl, by rw [htext]; rfl⟩
        · exact .inl h
      · rintro (h | ⟨heq, -⟩)
        · exact .inr h
        · cases heq
          exact .inl rfl

theorem mem_foldl_staging :
    i ∈ (cs.foldl b.staging staged).map Prod.fst ↔
      i ∈ staged.map Prod.fst ∨
        i ∈ cs.filterMap Command.target? ∧
          (cs.foldl (b.rewrite i) (b.overlay staged i)).isSome = true := by
  induction cs generalizing staged with
  | nil => simp
  | cons c cs ih =>
    rw [List.foldl_cons, ih, mem_staging, overlay_staging, List.foldl_cons, or_assoc]
    refine or_congr_right ?_
    by_cases htarget : c.target? = some i
    · rw [List.filterMap_cons_some htarget, List.mem_cons]
      constructor
      · rintro (⟨-, hsome⟩ | ⟨hmem, hsome⟩)
        · exact ⟨.inl rfl, isSome_foldl_rewrite hsome⟩
        · exact ⟨.inr hmem, hsome⟩
      · rintro ⟨-, hsome⟩
        by_cases hmem : i ∈ cs.filterMap Command.target?
        · exact .inr ⟨hmem, hsome⟩
        · -- The first command is the only one that edits the value, so it found or made one.
          rw [foldl_rewrite_of_notMem hmem] at hsome
          exact .inl ⟨htarget, hsome⟩
    · have hmem : i ∈ (c :: cs).filterMap Command.target? ↔ i ∈ cs.filterMap Command.target? := by
        simp only [List.mem_filterMap, List.mem_cons, exists_eq_or_imp, htarget, false_or]
      rw [hmem]
      constructor
      · rintro (⟨heq, -⟩ | h)
        · exact absurd heq htarget
        · exact h
      · exact .inr

/-- The table of staged values after some commands. -/
def stagedBy (b : EditBuffer) (cs : List Command) : List (Nat × List Char) :=
  cs.foldl b.staging []

theorem nodup_stagedBy (b : EditBuffer) (cs : List Command) :
    ((b.stagedBy cs).map Prod.fst).Nodup := by
  apply nodup_foldl_staging
  exact List.nodup_nil

theorem toFinset_stagedBy (b : EditBuffer) (cs : List Command) :
    ((b.stagedBy cs).map Prod.fst).toFinset = b.stagedIndices cs := by
  ext i
  rw [List.mem_toFinset, stagedBy, mem_foldl_staging, stagedIndices, Finset.mem_filter,
    List.mem_toFinset]
  constructor
  · rintro (h | h)
    · cases h
    · exact h
  · exact .inr

theorem length_stagedBy (b : EditBuffer) (cs : List Command) :
    (b.stagedBy cs).length = (b.stagedIndices cs).card := by
  rw [← toFinset_stagedBy, List.toFinset_card_of_nodup (nodup_stagedBy b cs), List.length_map]

theorem planned_of_mem_stagedBy {e : Nat × List Char} (h : e ∈ b.stagedBy cs) :
    b.planned cs e.1 = some e.2 := by
  have hlookup : (b.stagedBy cs).lookup e.1 = some e.2 := by
    have hnodup := nodup_stagedBy b cs
    obtain ⟨before, after, hsplit⟩ := List.append_of_mem h
    rw [hsplit, List.map_append, List.map_cons, List.nodup_append] at hnodup
    rw [List.lookup_eq_some_iff]
    refine ⟨before, after, hsplit, ?_⟩
    intro d hd
    have hne := hnodup.2.2 d.1 (List.mem_map_of_mem hd) e.1 List.mem_cons_self
    exact bne_iff_ne.2 (Ne.symm hne)
  have hover := overlay_foldl_staging b [] cs e.1
  rw [← stagedBy, overlay, hlookup, Option.some_or] at hover
  exact hover.symm

theorem mem_stagedIndices_iff :
    i ∈ b.stagedIndices cs ↔ ∃ text, (i, text) ∈ b.stagedBy cs := by
  rw [← toFinset_stagedBy, List.mem_toFinset, List.mem_map]
  constructor
  · rintro ⟨e, he, rfl⟩
    exact ⟨e.2, he⟩
  · rintro ⟨text, he⟩
    exact ⟨(i, text), he, rfl⟩

/-! ### All or nothing -/

/-- Open a change set, carry out some commands, and close it. -/
def transact (b : EditBuffer) (cs : List Command) : Bool × EditBuffer :=
  (b.beginSet.runAll cs).2.endSet

/-- An edit can be applied: its value is there and was not edited in this pass, and it does not
    bring back what the pass right before replaced. -/
def Admits (b : EditBuffer) (i : Nat) (text : List Char) : Prop :=
  b.IsFree i ∧ ¬b.Oscillates i text

theorem transact_of_inConflict (hconflict : b.inConflict = true)
    (hcs : ∀ c ∈ cs, c.isBoundary = false) :
    b.transact cs = (false, { b with changeSet := none }) := by
  have hrun : (b.runAll cs).2 = b := by
    induction cs with
    | nil => rfl
    | cons c cs ih =>
      have hc : c ≠ .endSet := by
        rintro rfl
        cases hcs .endSet List.mem_cons_self
      rw [runAll_cons, run_of_inConflict hconflict hc]
      exact ih fun d hd => hcs d (List.mem_cons_of_mem c hd)
  rw [transact, beginSet, if_pos hconflict, hrun, endSet]
  cases hset : b.changeSet with
  | none =>
    cases b
    cases hset
    rfl
  | some staged => exact if_pos hconflict

theorem transact_cases (hconflict : b.inConflict = false) (hcs : ∀ c ∈ cs, c.isBoundary = false) :
    (b.transact cs = (true, { b with changeSet := none }.recordAll (b.stagedBy cs)) ∧
      ∀ e ∈ b.stagedBy cs, b.Admits e.1 e.2) ∨
    (∃ conflict, b.transact cs = (false, { b with inConflict := conflict, changeSet := none }) ∧
      ∃ e ∈ b.stagedBy cs, ¬b.Admits e.1 e.2) := by
  have hopen : b.beginSet = { b with changeSet := some [] } := by
    simp [beginSet, hconflict]
  have hend : b.transact cs = { b with changeSet := none }.applyStaged [] (b.stagedBy cs) := by
    rw [transact, hopen, runAll_staging hconflict hcs]
    simp [endSet, hconflict, stagedBy]
  have hundo : ([] : List Undo).foldl takeBack { b with changeSet := none } =
      { b with changeSet := none } := rfl
  rw [hend]
  rcases applyStaged_cases hundo hconflict (nodup_stagedBy b cs) with
    ⟨heq, hall⟩ | ⟨heq, e, he, hbad⟩ | ⟨heq, e, he, hbad⟩
  · exact .inl ⟨heq, hall⟩
  · exact .inr ⟨b.inConflict, heq, e, he, fun h => hbad h.1⟩
  · exact .inr ⟨true, heq, e, he, fun h => h.2 hbad.2⟩

theorem admits_stagedBy_iff :
    (∀ e ∈ b.stagedBy cs, b.Admits e.1 e.2) ↔
      ∀ i ∈ b.stagedIndices cs, ∀ text ∈ b.planned cs i, b.Admits i text := by
  constructor
  · intro h i hi text htext
    obtain ⟨text', hmem⟩ := mem_stagedIndices_iff.1 hi
    have heq : b.planned cs i = some text' := planned_of_mem_stagedBy hmem
    rw [Option.mem_def, heq] at htext
    cases htext
    exact h _ hmem
  · intro h e he
    exact h e.1 (mem_stagedIndices_iff.2 ⟨e.2, he⟩) e.2 (planned_of_mem_stagedBy he)

theorem recordAll_stagedBy (hall : ∀ e ∈ b.stagedBy cs, b.Admits e.1 e.2) :
    let done := { b with changeSet := none }.recordAll (b.stagedBy cs)
    (∀ i ∈ b.stagedIndices cs, done.values[i]? = b.planned cs i) ∧
      (∀ i, i ∉ b.stagedIndices cs → done.values[i]? = b.values[i]?) ∧
      done.edits = b.edits + (b.stagedIndices cs).card := by
  intro done
  refine ⟨?_, ?_, ?_⟩
  · intro i hi
    obtain ⟨text, hmem⟩ := mem_stagedIndices_iff.1 hi
    rw [planned_of_mem_stagedBy hmem]
    exact recordAll_value (b := { b with changeSet := none }) (nodup_stagedBy b cs)
      (fun e he => (hall e he).1.1) hmem
  · intro i hi
    rw [mem_stagedIndices_iff] at hi
    apply And.left
    apply recordAll_of_notMem
    intro hmem
    obtain ⟨e, he, rfl⟩ := List.mem_map.1 hmem
    exact hi ⟨e.2, he⟩
  · rw [recordAll_edits, length_stagedBy]

/-- **Change sets are atomic.** Closing a change set succeeds exactly if every staged value can be
    written.  Then each staged index holds the value that was staged for it last, all other values
    are as before, and every staged index counts as one edit.  Otherwise the buffer is what it was
    before the change set was opened: its values, the marks of what was edited, the count of edits
    and the history; only a conflict may have come up. -/
theorem transact_atomic (b : EditBuffer) (cs : List Command)
    (hcs : ∀ c ∈ cs, c.isBoundary = false) :
    ((b.transact cs).1 = true ↔ b.inConflict = false ∧
      ∀ i ∈ b.stagedIndices cs, ∀ text ∈ b.planned cs i, b.Admits i text) ∧
    ((b.transact cs).1 = true →
      (∀ i ∈ b.stagedIndices cs, (b.transact cs).2.values[i]? = b.planned cs i) ∧
      (∀ i, i ∉ b.stagedIndices cs → (b.transact cs).2.values[i]? = b.values[i]?) ∧
      (b.transact cs).2.edits = b.edits + (b.stagedIndices cs).card) ∧
    ((b.transact cs).1 = false →
      ∃ conflict, (b.inConflict = true → conflict = true) ∧
        (b.transact cs).2 = { b with inConflict := conflict, changeSet := none }) := by
  cases hconflict : b.inConflict with
  | true =>
    rw [transact_of_inConflict hconflict hcs]
    refine ⟨⟨nofun, fun h => absurd h.1 nofun⟩, nofun, ?_⟩
    intro _
    refine ⟨true, fun _ => rfl, ?_⟩
    rw [← hconflict]
  | false =>
    rcases transact_cases hconflict hcs with ⟨heq, hall⟩ | ⟨conflict, heq, e, he, hbad⟩
    · rw [heq]
      refine ⟨⟨fun _ => ⟨rfl, admits_stagedBy_iff.1 hall⟩, fun _ => rfl⟩, ?_, nofun⟩
      intro _
      exact recordAll_stagedBy hall
    · rw [heq]
      refine ⟨⟨nofun, ?_⟩, nofun, fun _ => ⟨conflict, nofun, rfl⟩⟩
      rintro ⟨-, hadmits⟩
      exact absurd (admits_stagedBy_iff.2 hadmits e he) hbad

/-- Two staged values, one of them edited twice; then with an edit of a value that was edited
    before. -/
theorem transact_atomic_pair :
    let b : EditBuffer :=
      { values := #[['a'], ['b'], ['c']], edited := #[false, false, true], edits := 1
        history := #[none, none, some ⟨['d'], ['c'], 0⟩] }
    let cs : List Command :=
      [.replace 0 (.text ['x']), .prepend 1 (.text ['y']), .append 0 .lineBreak,
        .append 9 .lineBreak]
    (∀ c ∈ cs ++ [.replace 2 (.text ['z'])], c.isBoundary = false) ∧
      (b.transact cs).2.values[0]? = some ['x', '\n'] ∧
      (b.transact cs).2.values[2]? = some ['c'] ∧
      (b.transact cs).2.edits = 3 ∧
      (b.transact (cs ++ [.replace 2 (.text ['z'])])).2 = b := by
  intro b cs
  have hcs : ∀ c ∈ cs ++ [.replace 2 (.text ['z'])], c.isBoundary = false := by decide
  obtain ⟨-, hdone, -⟩ := transact_atomic b cs fun c hc => hcs c (List.mem_append_left _ hc)
  obtain ⟨hstaged, hother, hedits⟩ := hdone rfl
  obtain ⟨-, -, hundone⟩ := transact_atomic b (cs ++ [.replace 2 (.text ['z'])]) hcs
  obtain ⟨conflict, -, hback⟩ := hundone rfl
  refine ⟨hcs, ?_, ?_, ?_, ?_⟩
  · rw [hstaged 0 (by decide)]
    rfl
  · rw [hother 2 (by decide)]
    rfl
  · rw [hedits]
    rfl
  · have hcalm : conflict = false := (congrArg EditBuffer.inConflict hback).symm
    rw [hback, hcalm]

end EditBuffer

end TwigStyle
