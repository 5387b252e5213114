import TwigStyle.Proofs.Oscillation

/-!
# A fixer can be used for file after file

A fixer keeps its buffer when a file is done, and the buffer may be in any state then: in the middle
of a change set, in conflict, full of values and of writings that are remembered.  None of it shows
in the next file.  What a pass takes over from the pass before is little (`SamePast`): how many
passes are over, the line break, and the last writing of each index; and a new file starts with none
of it.  Within a pass two buffers that agree on this and hold the same values answer every command
alike (`SamePass.run`), although the rows in which they keep their writings may differ in length.
-/

namespace TwigStyle

namespace EditBuffer

variable {b b' : EditBuffer} {i : Nat} {text : List Char} {undo : List Undo}
  {staged : List (Nat × List Char)} {history history' : Array (Option Writing)}

/-- Two buffers that agree on all that one pass hands on to the next. -/
structure SamePast (b b' : EditBuffer) : Prop where
  passes : b'.passes = b.passes
  lineBreak : b'.lineBreak = b.lineBreak
  writing : ∀ i, b'.lastWriting? i = b.lastWriting? i

/-- Two rows of writings that tell the same of every index, with room for `n` of them. -/
structure SameWritings (n : Nat) (history history' : Array (Option Writing)) : Prop where
  room : n ≤ history.size
  room' : n ≤ history'.size
  writing : ∀ i : Nat, history'[i]?.join = history[i]?.join

/-- Two buffers in the same state of a pass: nothing but the rows of their writings may differ, and
    only behind the last value. -/
def SamePass (b b' : EditBuffer) : Prop :=
  ∃ history', b' = { b with history := history' } ∧
    SameWritings b.values.size b.history history'

/-- Two answers to one request: the same word, and buffers in the same state. -/
def SameAnswer {α : Type} (r r' : α × EditBuffer) : Prop := r'.1 = r.1 ∧ SamePass r.2 r'.2

/-! ### From one pass to the next -/

theorem SamePast.startFile (b b' : EditBuffer) (content : List Char) :
    SamePast (b.startFile content) (b'.startFile content) := by
  constructor
  · rfl
  · rfl
  · intro i
    rw [lastWriting?_startFile, lastWriting?_startFile]

theorem SamePast.load (h : SamePast b b') (values : Array (List Char)) :
    SamePass (b.startPass.load values) (b'.startPass.load values) := by
  refine ⟨(b'.startPass.load values).history, ?_, ?_⟩
  · simp only [EditBuffer.load, startPass, h.passes, h.lineBreak]
  · constructor
    · simp only [EditBuffer.load, startPass, Array.size_append, Array.size_replicate]
      omega
    · simp only [EditBuffer.load, startPass, Array.size_append, Array.size_replicate]
      omega
    · intro i
      have hwriting := h.writing i
      rwa [← lastWriting?_load b values, ← lastWriting?_load b' values] at hwriting

theorem SamePass.toSamePast (h : SamePass b b') : SamePast b b' := by
  obtain ⟨history', rfl, hsame⟩ := h
  exact ⟨rfl, rfl, hsame.writing⟩

theorem SamePass.endPass (h : SamePass b b') : SamePass b.endPass b'.endPass := by
  obtain ⟨history', rfl, hsame⟩ := h
  exact ⟨history', rfl, hsame⟩

/-! ### Within a pass -/

theorem SameWritings.set {n : Nat} (h : SameWritings n history history') (hi : i < n)
    (w : Option Writing) :
    SameWritings n (history.setIfInBounds i w) (history'.setIfInBounds i w) := by
  constructor
  · rw [Array.size_setIfInBounds]
    exact h.room
  · rw [Array.size_setIfInBounds]
    exact h.room'
  · intro j
    by_cases hij : i = j
    · subst hij
      rw [Array.getElem?_setIfInBounds_self_of_lt (Nat.lt_of_lt_of_le hi h.room),
        Array.getElem?_setIfInBounds_self_of_lt (Nat.lt_of_lt_of_le hi h.room')]
    · rw [Array.getElem?_setIfInBounds_ne hij, Array.getElem?_setIfInBounds_ne hij]
      exact h.writing j

theorem SamePass.commit (h : SamePass b b') (hi : i < b.values.size) (w : Writing) :
    SamePass (b.commit i text w) (b'.commit i text w) := by
  obtain ⟨history', rfl, hsame⟩ := h
  refine ⟨history'.setIfInBounds i (some w), rfl, ?_⟩
  have hset := hsame.set hi (some w)
  have hsize : (b.values.setIfInBounds i text).size = b.values.size := Array.size_setIfInBounds
  rwa [← hsize] at hset

theorem SamePass.takeBack {u : Undo} (h : SamePass b b') (hu : u.index < b.values.size) :
    SamePass (b.takeBack u) (b'.takeBack u) := by
  obtain ⟨history', rfl, hsame⟩ := h
  refine ⟨history'.setIfInBounds u.index u.writing, rfl, ?_⟩
  have hset := hsame.set hu u.writing
  have hsize : (b.values.setIfInBounds u.index u.value).size = b.values.size :=
    Array.size_setIfInBounds
  rwa [← hsize] at hset

theorem SamePass.foldl_takeBack (h : SamePass b b') (hundo : ∀ u ∈ undo, u.index < b.values.size) :
    SamePass (undo.foldl EditBuffer.takeBack b) (undo.foldl EditBuffer.takeBack b') := by
  induction undo generalizing b b' with
  | nil => exact h
  | cons u undo ih =>
    apply ih (h.takeBack (hundo u List.mem_cons_self))
    intro u' hu'
    rw [EditBuffer.takeBack, Array.size_setIfInBounds]
    exact hundo u' (List.mem_cons_of_mem u hu')

theorem SamePass.write (h : SamePass b b') (i : Nat) (text : List Char) :
    SameAnswer (b.write i text) (b'.write i text) := by
  have hlast := h.toSamePast.writing i
  obtain ⟨history', hb', hsame⟩ := h
  subst hb'
  by_cases hconflict : b.inConflict = true
  · rw [write_of_inConflict hconflict,
      write_of_inConflict (b := { b with history := history' }) hconflict]
    exact ⟨rfl, history', rfl, hsame⟩
  · have hcalm : b.inConflict = false := Bool.eq_false_iff.2 hconflict
    by_cases hfree : b.IsFree i
    · have hosc : Oscillates { b with history := history' } i text ↔ b.Oscillates i text := by
        unfold Oscillates
        rw [hlast]
      rw [write_of_isFree hcalm hfree,
        write_of_isFree (b := { b with history := history' }) hcalm hfree]
      by_cases hbad : b.Oscillates i text
      · rw [if_pos hbad, if_pos (hosc.2 hbad)]
        exact ⟨rfl, history', rfl, hsame⟩
      · rw [if_neg hbad, if_neg (fun h => hbad (hosc.1 h))]
        refine ⟨rfl, ?_⟩
        have hwriting : writing { b with history := history' } i text = b.writing i text := by
          unfold writing
          rw [hlast]
        rw [record, record, hwriting]
        exact SamePass.commit ⟨history', rfl, hsame⟩ hfree.1 _
    · rw [write_of_not_isFree hfree,
        write_of_not_isFree (b := { b with history := history' }) hfree]
      exact ⟨rfl, history', rfl, hsame⟩

theorem size_write (b : EditBuffer) (i : Nat) (text : List Char) :
    (b.write i text).2.values.size = b.values.size := by
  by_cases hconflict : b.inConflict = true
  · rw [write_of_inConflict hconflict]
  · by_cases hfree : b.IsFree i
    · rw [write_of_isFree (Bool.eq_false_iff.2 hconflict) hfree]
      split
      · rfl
      · exact Array.size_setIfInBounds
    · rw [write_of_not_isFree hfree]

section

variable (h : SamePass b b')
include h

/-- Staged edits are applied, or taken back, in both buffers alike.  What is taken back was written
    before, so its index is that of a value. -/
theorem SamePass.applyStaged (hundo : ∀ u ∈ undo, u.index < b.values.size) :
    SameAnswer (b.applyStaged undo staged) (b'.applyStaged undo staged) := by
  induction staged generalizing b b' undo with
  | nil => exact ⟨rfl, h⟩
  | cons e staged ih =>
    obtain ⟨i, text⟩ := e
    have hundoOf : b'.undoOf i = b.undoOf i := by
      have hlast := h.toSamePast.writing i
      obtain ⟨history', rfl, -⟩ := h
      rw [undoOf, undoOf, hlast]
    have hsize := size_write b i text
    obtain ⟨hyes, hpass⟩ := h.write i text
    simp only [EditBuffer.applyStaged, hundoOf]
    rcases hr : b.write i text with ⟨yes, b₁⟩
    rcases hr' : b'.write i text with ⟨yes', b₁'⟩
    rw [hr] at hsize
    rw [hr, hr'] at hyes hpass
    cases hyes
    cases yes with
    | true =>
      have hfree : b.IsFree i := by
        apply Classical.byContradiction
        intro hfree
        rw [write_of_not_isFree hfree] at hr
        cases hr
      apply ih hpass
      intro u hu
      rw [hsize]
      rcases List.mem_cons.1 hu with rfl | hu
      · exact hfree.1
      · exact hundo u hu
    | false =>
      refine ⟨rfl, hpass.foldl_takeBack ?_⟩
      rwa [hsize]

theorem SamePass.replace (i : Nat) (text : List Char) :
    SameAnswer (b.replace i text) (b'.replace i text) := by
  have hwrite := h.write i text
  obtain ⟨history', rfl, hsame⟩ := h
  unfold EditBuffer.replace
  by_cases hconflict : b.inConflict = true
  · rw [if_pos hconflict, if_pos hconflict]
    exact ⟨rfl, history', rfl, hsame⟩
  · rw [if_neg hconflict, if_neg hconflict]
    cases hset : b.changeSet with
    | none => simpa only [hset] using hwrite
    | some staged => exact ⟨rfl, history', rfl, hsame⟩

theorem SamePass.modify (i : Nat) (f : List Char → List Char) :
    SameAnswer (b.modify i f) (b'.modify i f) := by
  have hpending : b'.pending? i = b.pending? i := by
    obtain ⟨history', rfl, -⟩ := h
    rfl
  rw [EditBuffer.modify, EditBuffer.modify, hpending]
  cases b.pending? i with
  | none => exact ⟨rfl, h⟩
  | some t => exact h.replace i (f t)

theorem SamePass.beginSet : SamePass b.beginSet b'.beginSet := by
  obtain ⟨history', rfl, hsame⟩ := h
  unfold EditBuffer.beginSet
  by_cases hconflict : b.inConflict = true
  · rw [if_pos hconflict, if_pos hconflict]
    exact ⟨history', rfl, hsame⟩
  · rw [if_neg hconflict, if_neg hconflict]
    exact ⟨history', rfl, hsame⟩

theorem SamePass.endSet : SameAnswer b.endSet b'.endSet := by
  obtain ⟨history', rfl, hsame⟩ := h
  cases hset : b.changeSet with
  | none =>
    simp only [EditBuffer.endSet, hset]
    exact ⟨rfl, history', by rw [← hset], hsame⟩
  | some staged =>
    have hclosed : SamePass { b with changeSet := none }
        { b with history := history', changeSet := none } := ⟨history', rfl, hsame⟩
    simp only [EditBuffer.endSet, hset]
    by_cases hconflict : b.inConflict = true
    · rw [if_pos hconflict, if_pos hconflict]
      exact ⟨rfl, hclosed⟩
    · rw [if_neg hconflict, if_neg hconflict]
      exact hclosed.applyStaged (fun u hu => absurd hu List.not_mem_nil)

/-- **Buffers in the same state answer every command alike.** -/
theorem SamePass.run (c : Command) : SameAnswer (b.run c) (b'.run c) := by
  have hanswer : ∀ {r r' : Bool × EditBuffer}, SameAnswer r r' →
      SameAnswer (answer r) (answer r') := by
    intro r r' hr
    exact ⟨congrArg Reply.accepted hr.1, hr.2⟩
  have htext : b'.insertionText = b.insertionText := by
    obtain ⟨history', rfl, -⟩ := h
    rfl
  cases c with
  | replace i what =>
    rw [EditBuffer.run, EditBuffer.run, htext]
    exact hanswer (h.replace i _)
  | append i what =>
    rw [EditBuffer.run, EditBuffer.run, htext]
    exact hanswer (h.modify i _)
  | prepend i what =>
    rw [EditBuffer.run, EditBuffer.run, htext]
    exact hanswer (h.modify i _)
  | beginSet => exact ⟨rfl, h.beginSet⟩
  | endSet => exact hanswer h.endSet
  | value i | passes | lineBreak =>
    obtain ⟨history', rfl, hsame⟩ := h
    exact ⟨rfl, history', rfl, hsame⟩

theorem SamePass.runAll (cs : List Command) : SameAnswer (b.runAll cs) (b'.runAll cs) := by
  induction cs generalizing b b' with
  | nil => exact ⟨rfl, h⟩
  | cons c cs ih =>
    obtain ⟨hreply, hrun⟩ := h.run c
    obtain ⟨hreplies, hrest⟩ := ih hrun
    refine ⟨?_, hrest⟩
    change (b'.run c).1 :: ((b'.run c).2.runAll cs).1 = (b.run c).1 :: ((b.run c).2.runAll cs).1
    rw [hreply, hreplies]

theorem SamePass.mendAll (repairs : List (List Command)) :
    SamePass (b.mendAll repairs) (b'.mendAll repairs) := by
  induction repairs generalizing b b' with
  | nil => exact h
  | cons cmds repairs ih => exact ih (h.runAll cmds).2

theorem SamePass.outcome :
    b'.isQuiet = b.isQuiet ∧ b'.inConflict = b.inConflict ∧ b'.text = b.text := by
  obtain ⟨history', rfl, -⟩ := h
  exact ⟨rfl, rfl, rfl⟩

end

end EditBuffer

/-! ### File after file -/

namespace Fixer

variable {rs : Ruleset} {file : SourceFile} {t : Template} {fx fx' : Fixer} {content : List Char}

/-- A pass ends in the same state, whatever fixer it is made with. -/
theorem samePass_next (hrs : ∀ r ∈ rs.rules, r.isBuiltIn = true)
    (h : fx.buffer.SamePast fx'.buffer) :
    (fx.next rs file t).buffer.SamePass (fx'.next rs file t).buffer := by
  rw [next_buffer hrs, next_buffer hrs]
  exact ((h.load t.stream.values).mendAll (rs.repairs file t)).endPass

/-- Fixing goes the same way for two fixers that agree on what a pass takes over. -/
theorem samePast_passes (hrs : ∀ r ∈ rs.rules, r.isBuiltIn = true) (htable : fx'.table = fx.table)
    (h : fx.buffer.SamePast fx'.buffer) (file : SourceFile) (remaining : Nat)
    (content : List Char) :
    (passes rs file remaining content fx').1 = (passes rs file remaining content fx).1 ∧
      (passes rs file remaining content fx).2.buffer.SamePast
        (passes rs file remaining content fx').2.buffer := by
  induction remaining generalizing content fx fx' with
  | zero =>
    refine ⟨?_, h⟩
    rw [passes, passes, h.passes]
  | succ remaining ih =>
    cases ht : tokenize fx.table content with
    | error e =>
      simp only [passes, htable, ht, EditBuffer.startPass, h.passes]
      exact ⟨rfl, rfl, h.lineBreak, h.writing⟩
    | ok t =>
      have ht' : tokenize fx'.table content = .ok t := by rw [htable, ht]
      have hnext : (fx.next rs { file with content } t).buffer.SamePass
          (fx'.next rs { file with content } t).buffer := samePass_next hrs h
      have htable' : (fx'.next rs { file with content } t).table =
          (fx.next rs { file with content } t).table := by
        rw [next_table, next_table, htable]
      rw [passes_succ ht, passes_succ ht']
      obtain ⟨hquiet, hconflict, htext⟩ := hnext.outcome
      rw [hquiet, hconflict, htext]
      split
      · exact ⟨rfl, hnext.toSamePast⟩
      · split
        · exact ih htable' hnext.toSamePast content
        · exact ih htable' hnext.toSamePast _

theorem passes_table (remaining : Nat) (content : List Char) (fx : Fixer) :
    (passes rs file remaining content fx).2.table = fx.table := by
  induction remaining generalizing content fx with
  | zero => rfl
  | succ remaining ih =>
    cases ht : tokenize fx.table content with
    | error e => simp only [passes, ht]
    | ok t =>
      rw [passes_succ ht]
      split
      · exact next_table fx
      · split
        · rw [ih, next_table]
        · rw [ih, next_table]

/-- What can be asked of a fixer: an edit of its buffer, or to fix a file. -/
inductive Request where
  | edit (c : Command)
  | fix (rs : Ruleset) (file : SourceFile)

/-- The fixer after a request, whatever the answer was. -/
def serve (fx : Fixer) : Request → Fixer
  | .edit c => { fx with buffer := (fx.buffer.run c).2 }
  | .fix rs file => (fx.fixFile rs file).2

/-- The fixer after some requests. -/
def serveAll (fx : Fixer) (requests : List Request) : Fixer := requests.foldl serve fx

theorem serve_table (fx : Fixer) (request : Request) : (fx.serve request).table = fx.table := by
  cases request with
  | edit c => rfl
  | fix rs file => exact passes_table _ _ _

theorem serveAll_table (fx : Fixer) (requests : List Request) :
    (fx.serveAll requests).table = fx.table := by
  induction requests generalizing fx with
  | nil => rfl
  | cons request requests ih =>
    rw [serveAll, List.foldl_cons, ← serveAll, ih, serve_table]

/-- **A fixer can be reused.** Whatever was asked of it before, it fixes a file with the same
    result, the same number of passes and the same line break as a new one. -/
theorem fixFile_reused (table : OperatorTable) (requests : List Request) (rs : Ruleset)
    (hrs : ∀ r ∈ rs.rules, r.isBuiltIn = true) (file : SourceFile) :
    let new : Fixer := { table }
    let used := new.serveAll requests
    (used.fixFile rs file).1 = (new.fixFile rs file).1 ∧
      (used.fixFile rs file).2.buffer.passes = (new.fixFile rs file).2.buffer.passes ∧
      (used.fixFile rs file).2.buffer.lineBreak = (new.fixFile rs file).2.buffer.lineBreak := by
  intro new used
  have hstart := EditBuffer.SamePast.startFile new.buffer used.buffer file.content
  have htable : { used with buffer := used.buffer.startFile file.content }.table =
      { new with buffer := new.buffer.startFile file.content }.table := serveAll_table new requests
  obtain ⟨hresult, hpast⟩ := samePast_passes hrs htable hstart file maxPasses file.content
  exact ⟨hresult, hpast.passes, hpast.lineBreak⟩

/-- After a file that cannot be fixed, and with a change set left open. -/
theorem fixFile_reused_open :
    let rs : Ruleset := ⟨Standard.full.rules⟩
    let used := ({ table := OperatorTable.default } : Fixer).serveAll
      [.fix rs (.alone ⟨"a.twig"⟩ "\x7b\x7b [1,] \x7d\x7d\r\n".toList), .edit .beginSet,
        .edit (.append 0 .lineBreak)]
    let file : SourceFile := .alone ⟨"b.twig"⟩ "\x7b\x7ba+b\x7d\x7d".toList
    (∀ r ∈ rs.rules, r.isBuiltIn = true) ∧
      (used.fixFile rs file).1.toOption = some "\x7b\x7b a + b \x7d\x7d\n".toList ∧
      (used.fixFile rs file).2.buffer.passes = 3 ∧
      (used.fixFile rs file).2.buffer.lineBreak = ['\n'] := by
  intro rs used file
  have hbuiltIn : ∀ r ∈ rs.rules, r.isBuiltIn = true := by decide
  obtain ⟨hresult, hpasses, hbreak⟩ := fixFile_reused OperatorTable.default
    [.fix rs (.alone ⟨"a.twig"⟩ "\x7b\x7b [1,] \x7d\x7d\r\n".toList), .edit .beginSet,
      .edit (.append 0 .lineBreak)] rs hbuiltIn file
  refine ⟨hbuiltIn, ?_, ?_, ?_⟩
  · rw [hresult]
    decide +kernel
  · rw [hpasses]
    decide +kernel
  · rw [hbreak]
    decide +kernel

end Fixer

end TwigStyle
