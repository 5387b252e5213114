import TwigStyle.Proofs.Atomicity
import TwigStyle.Proofs.Oscillation

/-!
# The books of a pass

A buffer keeps several books on one pass: the values, the marks of what was edited, the number of
edits, the history, and the change set that may be open.  Fixing stops when the number of edits is
zero, so the books must say the same at any time, whatever is asked of the buffer and in whatever
order (`InStep`).

A command can do one of four things to a buffer (`Outcome`): nothing; stage; refuse, which closes the
change set and may bring a conflict; or record some edits of free values.  That is all that the
books have to be checked against.
-/

namespace TwigStyle

namespace EditBuffer

variable {b b' : EditBuffer} {i j : Nat} {text : List Char} {values : Array (List Char)}
  {edits : List (Nat × List Char)} {c : Command}

/-! ### What was edited -/

/-- The indices whose values were edited in this pass. -/
def editedIndices (b : EditBuffer) : Finset Nat :=
  (Finset.range b.edited.size).filter fun i => b.edited[i]? = some true

theorem mem_editedIndices : i ∈ b.editedIndices ↔ b.edited[i]? = some true := by
  rw [editedIndices, Finset.mem_filter, Finset.mem_range]
  refine ⟨And.right, fun h => ⟨?_, h⟩⟩
  obtain ⟨hlt, -⟩ := Array.getElem?_eq_some_iff.1 h
  exact hlt

theorem IsFree.notMem (h : b.IsFree i) : i ∉ b.editedIndices := by
  rw [mem_editedIndices]
  intro hedited
  have hfree := h.2
  rw [hedited] at hfree
  cases hfree

theorem editedIndices_record (hlt : i < b.edited.size) :
    (b.record i text).editedIndices = insert i b.editedIndices := by
  ext j
  rw [Finset.mem_insert, mem_editedIndices, mem_editedIndices]
  change (b.edited.setIfInBounds i true)[j]? = some true ↔ _
  by_cases hij : i = j
  · subst hij
    simp [hlt]
  · rw [Array.getElem?_setIfInBounds_ne hij]
    exact ⟨.inr, fun h => h.resolve_left (Ne.symm hij)⟩

/-! ### What a command can do -/

/-- What a command can do to a buffer, with its reply.  Closing a change set ends in one of the last
    two ways, whether one is open or not. -/
inductive Outcome (b : EditBuffer) (c : Command) : Reply → EditBuffer → Prop
  | same {reply : Reply} (hc : c ≠ .endSet) (hreply : reply ≠ .accepted true) : Outcome b c reply b
  | staged {reply : Reply} {staged : List (Nat × List Char)} (hc : c ≠ .endSet)
      (hreply : reply ≠ .accepted false) (hcalm : b.inConflict = false)
      (hdistinct : (staged.map Prod.fst).Nodup) :
      Outcome b c reply { b with changeSet := some staged }
  | refused {conflict : Bool} (hconflict : b.inConflict = true → conflict = true)
      (hcause : conflict = true → b.inConflict = true ∨ ∃ i text, b.Oscillates i text) :
      Outcome b c (.accepted false) { b with inConflict := conflict, changeSet := none }
  | recorded {edits : List (Nat × List Char)} (hcalm : b.inConflict = false)
      (hdistinct : (edits.map Prod.fst).Nodup) (hfree : ∀ e ∈ edits, b.IsFree e.1) :
      Outcome b c (.accepted true) ({ b with changeSet := none }.recordAll edits)

/-- No change set is open in a conflict, and none stages a value twice. -/
structure Sound (b : EditBuffer) : Prop where
  apart : b.inConflict = true → b.changeSet = none
  distinct : ∀ staged ∈ b.changeSet, (staged.map Prod.fst).Nodup

theorem withChangeSet_none (h : b.changeSet = none) : { b with changeSet := none } = b := by
  cases b
  cases h
  rfl

theorem outcome_write (hidle : b.changeSet = none) (hc : c ≠ .endSet) (i : Nat) (text : List Char) :
    b.Outcome c (answer (b.write i text)).1 (answer (b.write i text)).2 := by
  by_cases hconflict : b.inConflict = true
  · rw [write_of_inConflict hconflict]
    exact .same hc nofun
  · have hcalm : b.inConflict = false := Bool.eq_false_iff.2 hconflict
    by_cases hfree : b.IsFree i
    · rw [write_of_isFree hcalm hfree]
      split
      · rename_i hback
        have hrefused : b.Outcome c (.accepted false)
            { b with inConflict := true, changeSet := none } :=
          .refused (fun _ => rfl) fun _ => .inr ⟨i, text, hback⟩
        rw [← hidle] at hrefused
        exact hrefused
      · have hrecorded : b.Outcome c (.accepted true)
            ({ b with changeSet := none }.recordAll [(i, text)]) := by
          refine .recorded hcalm (List.nodup_singleton i) ?_
          intro e he
          rw [List.mem_singleton.1 he]
          exact hfree
        rw [withChangeSet_none hidle] at hrecorded
        exact hrecorded
    · rw [write_of_not_isFree hfree]
      exact .same hc nofun

theorem Sound.outcome_replace (h : b.Sound) (hc : c ≠ .endSet) (i : Nat) (text : List Char) :
    b.Outcome c (answer (b.replace i text)).1 (answer (b.replace i text)).2 := by
  unfold replace
  split
  · exact .same hc nofun
  · rename_i hconflict
    split
    · rename_i staged hset
      exact .staged hc nofun (Bool.eq_false_iff.2 hconflict) (nodup_stage (h.distinct staged hset))
    · rename_i hidle
      exact outcome_write hidle hc i text

theorem Sound.outcome_modify (h : b.Sound) (hc : c ≠ .endSet) (i : Nat)
    (f : List Char → List Char) :
    b.Outcome c (answer (b.modify i f)).1 (answer (b.modify i f)).2 := by
  unfold modify
  split
  · exact .same hc nofun
  · exact h.outcome_replace hc i _

theorem Sound.outcome_endSet (h : b.Sound) : b.Outcome c (answer b.endSet).1 (answer b.endSet).2 := by
  unfold endSet
  split
  · rename_i hidle
    have hrefused : b.Outcome c (.accepted false) { b with changeSet := none } :=
      .refused (b := b) id .inl
    rw [withChangeSet_none hidle] at hrefused
    exact hrefused
  · rename_i staged hset
    have hcalm : b.inConflict = false := by
      rw [Bool.eq_false_iff]
      intro hconflict
      rw [h.apart hconflict] at hset
      cases hset
    rw [if_neg (Bool.eq_false_iff.1 hcalm)]
    have hundo : ([] : List Undo).foldl takeBack { b with changeSet := none } =
        { b with changeSet := none } := rfl
    rcases applyStaged_cases hundo hcalm (h.distinct staged hset) with
      ⟨heq, hall⟩ | ⟨heq, -⟩ | ⟨heq, e, -, -, hback⟩
    · rw [heq]
      exact .recorded hcalm (h.distinct staged hset) fun e he => (hall e he).1
    · rw [heq]
      exact .refused (b := b) id .inl
    · rw [heq]
      exact .refused (fun _ => rfl) fun _ => .inr ⟨e.1, e.2, hback⟩

/-- **What a command can do.** -/
theorem Sound.outcome_run (h : b.Sound) (c : Command) : b.Outcome c (b.run c).1 (b.run c).2 := by
  cases c with
  | replace i what => exact h.outcome_replace (c := .replace i what) (by simp) i _
  | append i what => exact h.outcome_modify (c := .append i what) (by simp) i _
  | prepend i what => exact h.outcome_modify (c := .prepend i what) (by simp) i _
  | beginSet =>
    rw [run, beginSet]
    split
    · exact .same (by simp) (by simp)
    · rename_i hconflict
      exact .staged (by simp) (by simp) (Bool.eq_false_iff.2 hconflict) List.nodup_nil
  | endSet => exact h.outcome_endSet
  | value | passes | lineBreak => exact .same (by simp) (by simp [run])

theorem exists_accepted (b : EditBuffer) (hc : c.target?.isSome = true ∨ c = .endSet) :
    ∃ yes, (b.run c).1 = .accepted yes := by
  cases c with
  | replace | append | prepend | endSet => exact ⟨_, rfl⟩
  | beginSet | value | passes | lineBreak =>
    rcases hc with hc | hc
    · cases hc
    · cases hc

/-! ### The books agree -/

/-- The books of a pass over some values agree. -/
structure InStep (values : Array (List Char)) (b : EditBuffer) : Prop extends b.Sound where
  /-- No value is added or dropped. -/
  size : b.values.size = values.size
  /-- Each edited value counts once. -/
  count : b.edits = b.editedIndices.card
  /-- What was not edited is as it was. -/
  kept : ∀ i, i ∉ b.editedIndices → b.values[i]? = values[i]?
  /-- The history tells of this pass what was edited in it, and nothing else. -/
  stamped : ∀ i, i ∈ b.editedIndices ↔ ∃ w, b.lastWriting? i = some w ∧ w.pass = b.passes
  /-- It tells nothing of a pass to come. -/
  past : ∀ i w, b.lastWriting? i = some w → w.pass ≤ b.passes
  /-- There is a mark for every value, and room for it in the history. -/
  flags : b.edited.size = values.size
  room : values.size ≤ b.history.size

section

variable (h : b.InStep values)
include h

theorem InStep.withChangeSet {changeSet : Option (List (Nat × List Char))} {conflict : Bool}
    (hsound : { b with inConflict := conflict, changeSet := changeSet }.Sound) :
    { b with inConflict := conflict, changeSet := changeSet }.InStep values :=
  ⟨hsound, h.size, h.count, h.kept, h.stamped, h.past, h.flags, h.room⟩

theorem InStep.closed (conflict : Bool) :
    { b with inConflict := conflict, changeSet := none }.InStep values :=
  h.withChangeSet ⟨fun _ => rfl, nofun⟩

theorem InStep.record (hfree : b.IsFree i) (hidle : b.changeSet = none) :
    (b.record i text).InStep values := by
  have hvalue : i < values.size := by
    rw [← h.size]
    exact hfree.1
  have hflag : i < b.edited.size := by
    rw [h.flags]
    exact hvalue
  have hroom : i < b.history.size := Nat.lt_of_lt_of_le hvalue h.room
  have hedited : (b.record i text).editedIndices = insert i b.editedIndices :=
    editedIndices_record hflag
  have hlast : (b.record i text).lastWriting? i = some (b.writing i text) := by
    simp [lastWriting?, EditBuffer.record, commit, hroom]
  constructor
  case toSound => exact ⟨fun _ => hidle, h.distinct⟩
  case size =>
    rw [← h.size]
    exact Array.size_setIfInBounds
  case count =>
    rw [hedited, Finset.card_insert_of_notMem hfree.notMem, ← h.count]
    rfl
  case kept =>
    intro j hj
    rw [hedited, Finset.mem_insert, not_or] at hj
    rw [← h.kept j hj.2]
    exact Array.getElem?_setIfInBounds_ne (Ne.symm hj.1)
  case stamped =>
    intro j
    rw [hedited, Finset.mem_insert]
    by_cases hji : j = i
    · subst hji
      exact ⟨fun _ => ⟨_, hlast, rfl⟩, fun _ => .inl rfl⟩
    · rw [lastWriting?_record_of_ne hji]
      exact ⟨fun hj => (h.stamped j).1 (hj.resolve_left hji), fun hj => .inr ((h.stamped j).2 hj)⟩
  case past =>
    intro j w hw
    by_cases hji : j = i
    · subst hji
      rw [lastWriting?_record_self hw]
      exact Nat.le_refl b.passes
    · rw [lastWriting?_record_of_ne hji] at hw
      exact h.past j w hw
  case flags =>
    rw [← h.flags]
    exact Array.size_setIfInBounds
  case room =>
    refine Nat.le_trans h.room (Nat.le_of_eq ?_)
    exact Array.size_setIfInBounds.symm

theorem InStep.recordAll (hidle : b.changeSet = none) (hdistinct : (edits.map Prod.fst).Nodup)
    (hfree : ∀ e ∈ edits, b.IsFree e.1) : (b.recordAll edits).InStep values := by
  induction edits generalizing b with
  | nil => exact h
  | cons e edits ih =>
    rw [List.map_cons, List.nodup_cons] at hdistinct
    refine ih (h.record (hfree e List.mem_cons_self) hidle) hidle hdistinct.2 ?_
    intro d hd
    have hne : d.1 ≠ e.1 := by
      intro heq
      rw [← heq] at hdistinct
      exact hdistinct.1 (List.mem_map_of_mem hd)
    rw [isFree_record_of_ne hne]
    exact hfree d (List.mem_cons_of_mem e hd)

theorem InStep.run (c : Command) : (b.run c).2.InStep values := by
  have houtcome := h.outcome_run c
  generalize (b.run c).1 = reply at houtcome
  generalize (b.run c).2 = b' at houtcome ⊢
  cases houtcome with
  | same => exact h
  | staged _ _ hcalm hdistinct =>
    refine h.withChangeSet ⟨?_, ?_⟩
    · intro hconflict
      rw [hcalm] at hconflict
      cases hconflict
    · intro staged hset
      cases hset
      exact hdistinct
  | refused => exact h.closed _
  | recorded _ hdistinct hfree => exact (h.closed _).recordAll rfl hdistinct hfree

theorem InStep.runAll (cs : List Command) : (b.runAll cs).2.InStep values := by
  induction cs generalizing b with
  | nil => exact h
  | cons c cs ih => exact ih (h.run c)

end

/-! ### An edited value stays -/

/-- Every edited value is still so, and it is the same. -/
def Stays (b b' : EditBuffer) : Prop :=
  ∀ i ∈ b.editedIndices, i ∈ b'.editedIndices ∧ b'.values[i]? = b.values[i]?

theorem InStep.mem_iff (h : b.InStep values) :
    i ∈ b.editedIndices ↔ i < values.size ∧ ¬b.IsFree i := by
  constructor
  · intro hi
    obtain ⟨hlt, -⟩ := Array.getElem?_eq_some_iff.1 (mem_editedIndices.1 hi)
    rw [h.flags] at hlt
    exact ⟨hlt, fun hfree => hfree.notMem hi⟩
  · rintro ⟨hlt, hfree⟩
    have hflag : i < b.edited.size := by rwa [h.flags]
    rw [mem_editedIndices, Array.getElem?_eq_getElem hflag]
    rw [IsFree, h.size, Array.getElem?_eq_getElem hflag] at hfree
    simpa [hlt] using hfree

theorem InStep.stays_recordAll (h : b.InStep values) (hidle : b.changeSet = none)
    (hdistinct : (edits.map Prod.fst).Nodup) (hfree : ∀ e ∈ edits, b.IsFree e.1) :
    b.Stays (b.recordAll edits) := by
  intro i hi
  have hother : i ∉ edits.map Prod.fst := by
    intro hmem
    obtain ⟨e, he, rfl⟩ := List.mem_map.1 hmem
    exact (hfree e he).notMem hi
  obtain ⟨hvalue, hiff⟩ := recordAll_of_notMem (b := b) hother
  rw [(h.recordAll hidle hdistinct hfree).mem_iff, hiff, ← h.mem_iff]
  exact ⟨hi, hvalue⟩

theorem InStep.stays_run (h : b.InStep values) (c : Command) : b.Stays (b.run c).2 := by
  have houtcome := h.outcome_run c
  generalize (b.run c).1 = reply at houtcome
  generalize (b.run c).2 = b' at houtcome ⊢
  cases houtcome with
  | same | staged | refused => exact fun i hi => ⟨hi, rfl⟩
  | recorded _ hdistinct hfree => exact (h.closed _).stays_recordAll rfl hdistinct hfree

theorem InStep.stays_runAll (h : b.InStep values) (cs : List Command) :
    b.Stays (b.runAll cs).2 := by
  induction cs generalizing b with
  | nil => exact fun i hi => ⟨hi, rfl⟩
  | cons c cs ih =>
    intro i hi
    obtain ⟨hmem, hvalue⟩ := h.stays_run c i hi
    obtain ⟨hmem', hvalue'⟩ := ih (h.run c) i hmem
    exact ⟨hmem', hvalue'.trans hvalue⟩

/-! ### Refusals -/

/-- An edit that is refused outside of a change set, and a change set that is refused, leave no trace
    but a conflict. -/
theorem Sound.run_refused (h : b.Sound) (hreply : (b.run c).1 = .accepted false)
    (hc : b.changeSet = none ∨ c = .endSet) :
    (b.run c).2 = { b with inConflict := (b.run c).2.inConflict, changeSet := none } := by
  have houtcome := h.outcome_run c
  generalize (b.run c).2 = b' at houtcome ⊢
  rw [hreply] at houtcome
  cases houtcome with
  | same hother => exact (withChangeSet_none (hc.resolve_right hother)).symm
  | staged _ hreply => exact absurd rfl hreply
  | refused => rfl

theorem Sound.run_inConflict (h : b.Sound) (hconflict : b.inConflict = true) (c : Command) :
    (b.run c).1 ≠ .accepted true ∧ (b.run c).2 = b := by
  have houtcome := h.outcome_run c
  generalize (b.run c).1 = reply at houtcome ⊢
  generalize (b.run c).2 = b' at houtcome ⊢
  cases houtcome with
  | same _ hreply => exact ⟨hreply, rfl⟩
  | staged _ _ hcalm =>
    rw [hcalm] at hconflict
    cases hconflict
  | refused hstill =>
    refine ⟨nofun, ?_⟩
    rw [hstill hconflict, ← hconflict]
    exact withChangeSet_none (h.apart hconflict)
  | recorded hcalm =>
    rw [hcalm] at hconflict
    cases hconflict

/-! ### Pass after pass -/

/-- A buffer between two passes over a file, whatever was asked of it in the passes before. -/
inductive Passed : EditBuffer → Prop
  | startFile (b : EditBuffer) (content : List Char) : Passed (b.startFile content)
  | pass {b : EditBuffer} (h : Passed b) (values : Array (List Char)) (cs : List Command) :
      Passed ((b.startPass.load values).runAll cs).2.endPass

theorem inStep_load (h : b.Past) (values : Array (List Char)) :
    (b.startPass.load values).InStep values := by
  have hnone : (b.startPass.load values).editedIndices = ∅ := by
    ext i
    simp [mem_editedIndices, load, Array.getElem?_replicate]
  have hpast : ∀ i w, (b.startPass.load values).lastWriting? i = some w → w.pass < b.passes := by
    intro i w hw
    rw [lastWriting?_load] at hw
    exact h i w hw
  constructor
  case toSound =>
    refine ⟨fun _ => rfl, fun staged hstaged => ?_⟩
    cases hstaged
  case size => rfl
  case count =>
    rw [hnone]
    rfl
  case kept => exact fun _ _ => rfl
  case stamped =>
    intro i
    rw [hnone]
    refine ⟨fun hi => absurd hi (Finset.notMem_empty i), ?_⟩
    rintro ⟨w, hw, hpass⟩
    exact absurd hpass (Nat.ne_of_lt (hpast i w hw))
  case past => exact fun i w hw => Nat.le_of_lt (hpast i w hw)
  case flags => exact Array.size_replicate
  case room =>
    simp only [load, startPass, Array.size_append, Array.size_replicate]
    omega

theorem Passed.past (h : b.Passed) : b.Past := by
  induction h with
  | startFile b content =>
    intro i w hw
    rw [lastWriting?_startFile] at hw
    cases hw
  | pass _ values cs ih =>
    intro i w hw
    exact Nat.lt_succ_of_le (((inStep_load ih values).runAll cs).past i w hw)

end EditBuffer

namespace Fixer

theorem exists_commands (fx : Fixer) (rs : Ruleset) (file : SourceFile) (t : Template) :
    ∃ cs, (fx.next rs file t).buffer =
      ((fx.buffer.startPass.load t.stream.values).runAll cs).2.endPass := by
  have hmend : ∀ (rule : String) (call : Nat) (found : List Finding) (fx : Fixer), ∃ cs,
      (found.foldl (mend t.directives t.stream rule call) fx).buffer = (fx.buffer.runAll cs).2 := by
    intro rule call found
    induction found with
    | nil => exact fun fx => ⟨[], rfl⟩
    | cons f found ih =>
      intro fx
      obtain ⟨cs, hcs⟩ := ih (mend t.directives t.stream rule call fx f)
      rw [List.foldl_cons, hcs]
      cases hsilenced : f.isSilenced t.directives rule
      · refine ⟨f.repair.getD [] ++ cs, ?_⟩
        rw [EditBuffer.runAll_append]
        simp [mend, hsilenced]
      · refine ⟨cs, ?_⟩
        simp [mend, hsilenced]
  have hrules : ∀ (rules : List Rule) (fx : Fixer), ∃ cs,
      (rules.foldl (applyRule file t) fx).buffer = (fx.buffer.runAll cs).2 := by
    intro rules
    induction rules with
    | nil => exact fun fx => ⟨[], rfl⟩
    | cons r rules ih =>
      intro fx
      obtain ⟨cs, hcs⟩ := ih (applyRule file t fx r)
      rw [List.foldl_cons, hcs]
      cases happlies : r.appliesTo file
      · refine ⟨cs, ?_⟩
        simp [applyRule, happlies]
      · obtain ⟨ds, hds⟩ := hmend r.name (fx.callsOf r.name)
          (r.fixFindings (fx.callsOf r.name) t.stream) (fx.countCall r.name)
        refine ⟨ds ++ cs, ?_⟩
        rw [EditBuffer.runAll_append, applyRule, if_pos happlies, hds]
        rfl
  obtain ⟨cs, hcs⟩ :=
    hrules rs.fixable { fx with buffer := fx.buffer.startPass.load t.stream.values }
  exact ⟨cs, congrArg EditBuffer.endPass hcs⟩

/-- **The books of a pass agree.** In a pass over a file, after passes in which any rules have asked
    anything of the buffer, the rules ask some commands of it.  Whatever commands these are, at any
    time the number of values is that of the tokens, the number of edits is that of the edited indices,
    all other values are those of their tokens, the history tells of this pass exactly the edited
    indices, and no change set is open in a conflict (`InStep`).  An edited value is not written again,
    and it stays whatever is asked next: a change set that is refused takes back its own edits and
    leaves what was there when it was closed.  An edit that is refused outside of a change set leaves
    no trace but a conflict, and in a conflict every edit is refused and nothing changes. -/
theorem pass_inStep {fx : Fixer} (hpassed : fx.buffer.Passed) (t : Template) :
    let start := fx.buffer.startPass.load t.stream.values
    (∀ rs file, ∃ cs, (fx.next rs file t).buffer = (start.runAll cs).2.endPass) ∧
      (∀ (b : EditBuffer) (i : Nat) (text : List Char),
        i ∈ b.editedIndices → b.write i text = (false, b)) ∧
      ∀ cs, let b := (start.runAll cs).2
        b.InStep t.stream.values ∧
        (∀ cs', b.Stays (b.runAll cs').2) ∧
        ∀ c, ((b.run c).1 = .accepted false → b.changeSet = none ∨ c = .endSet →
            (b.run c).2 = { b with inConflict := (b.run c).2.inConflict, changeSet := none }) ∧
          (b.inConflict = true → (b.run c).2 = b ∧
            (c.target?.isSome = true ∨ c = .endSet → (b.run c).1 = .accepted false)) := by
  intro start
  refine ⟨fun rs file => exists_commands fx rs file t, ?_, ?_⟩
  · intro b i text hi
    exact EditBuffer.write_of_not_isFree fun hfree => hfree.notMem hi
  intro cs b
  have hb : b.InStep t.stream.values := (EditBuffer.inStep_load hpassed.past _).runAll cs
  refine ⟨hb, hb.stays_runAll, fun c => ⟨hb.run_refused, ?_⟩⟩
  intro hconflict
  obtain ⟨hreply, hsame⟩ := hb.run_inConflict hconflict c
  refine ⟨hsame, ?_⟩
  intro hc
  obtain ⟨yes, hyes⟩ := b.exists_accepted hc
  rw [hyes] at hreply ⊢
  cases yes with
  | true => exact absurd rfl hreply
  | false => rfl

/-- The second pass over a file: a change set in which the second edit undoes the first pass. -/
theorem pass_inStep_undone :
    let first : EditBuffer := EditBuffer.startFile {} ['a', '+']
    let fx : Fixer :=
      { table := OperatorTable.default
        buffer := ((first.startPass.load #[['a'], ['+']]).runAll
          [.replace 0 (.text ['b'])]).2.endPass }
    let t : Template := ⟨⟨#[⟨.text, ['b'], ⟨1, 1⟩, none⟩, ⟨.text, ['+'], ⟨1, 2⟩, none⟩], false⟩, []⟩
    let b := ((fx.buffer.startPass.load t.stream.values).runAll
      [.beginSet, .append 1 .lineBreak, .replace 0 (.text ['a']), .endSet]).2
    fx.buffer.Passed ∧ b.inConflict = true ∧ b.edits = 0 ∧ b.editedIndices = ∅ ∧
      b.values[1]? = some ['+'] ∧ b.run (.append 1 .lineBreak) = (.accepted false, b) := by
  intro first fx t b
  have hpassed : fx.buffer.Passed := (EditBuffer.Passed.startFile {} ['a', '+']).pass _ _
  obtain ⟨-, -, hbooks⟩ := pass_inStep hpassed t
  obtain ⟨hb, -, hrun⟩ := hbooks
    [.beginSet, .append 1 .lineBreak, .replace 0 (.text ['a']), .endSet]
  have hconflict : b.inConflict = true := by decide +kernel
  have hnone : b.editedIndices = ∅ := by decide +kernel
  obtain ⟨hsame, hreply⟩ := (hrun (.append 1 .lineBreak)).2 hconflict
  refine ⟨hpassed, hconflict, ?_, hnone, ?_, Prod.ext (hreply (.inl rfl)) hsame⟩
  · have hcount : b.edits = b.editedIndices.card := hb.count
    rw [hcount, hnone]
    rfl
  · have hnotMem : 1 ∉ b.editedIndices := by
      rw [hnone]
      exact Finset.notMem_empty 1
    have hvalue : t.stream.values[1]? = some ['+'] := by decide +kernel
    exact (hb.kept 1 hnotMem).trans hvalue

end Fixer

end TwigStyle
