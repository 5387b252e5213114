import TwigStyle.Proofs.Outcome

/-!
# Conflicts do not last

A pass in conflict is thrown away, but what it wrote stays in the history, so the next pass over the same
text can be in conflict for another reason.  It cannot go on like that.  An edit oscillates only with what
the pass right before has written, so a pass after one that has written nothing is not in conflict.  The
first change of a pass is recorded, or it is the conflict itself and the pass has written nothing.  And
recorded in two passes in a row, it is an oscillation in the third one.

So among four passes over the same text there is one without a conflict: `Fixer.settles`.
-/

namespace TwigStyle

namespace EditBuffer

variable {b b₀ : EditBuffer} {s : TokenStream} {i j : Nat} {text : List Char}
  {edits : List (Nat × List Char)} {repairs : List (List Command)}

/-! ### History -/

/-- The history knows of no pass to come. -/
def Past (b : EditBuffer) : Prop := ∀ i w, b.lastWriting? i = some w → w.pass < b.passes

/-- The last pass has written nothing. -/
def Calm (b : EditBuffer) : Prop := ∀ i w, b.lastWriting? i = some w → w.pass + 1 < b.passes

/-- What the history knows was written in this pass or was known at its start. -/
structure Since (b₀ b : EditBuffer) : Prop where
  passes : b.passes = b₀.passes
  writing : ∀ i w, b.lastWriting? i = some w → w.pass = b₀.passes ∨ b₀.lastWriting? i = some w

theorem Since.refl (b : EditBuffer) : Since b b := ⟨rfl, fun _ _ h => .inr h⟩

theorem lastWriting?_record_self {w : Writing}
    (h : (b.record i text).lastWriting? i = some w) : w = b.writing i text := by
  unfold lastWriting? record commit at h
  by_cases hlt : i < b.history.size
  · simpa [hlt] using h.symm
  · simp [hlt] at h

theorem Since.record (h : Since b₀ b) : Since b₀ (b.record i text) := by
  refine ⟨h.passes, ?_⟩
  intro j w hw
  by_cases hji : j = i
  · subst hji
    rw [lastWriting?_record_self hw]
    exact .inl h.passes
  · rw [lastWriting?_record_of_ne hji] at hw
    exact h.writing j w hw

theorem Since.attempt (h : Since b₀ b) (hnodup : (edits.map Prod.fst).Nodup) :
    Since b₀ (b.attempt edits) :=
  attempt_keeps (P := Since b₀) hnodup h
    (fun _ _ => recordAll_keeps (P := Since b₀) h fun _ h _ _ => h.record) ⟨h.passes, h.writing⟩

theorem Since.not_oscillates (h : Since b₀ b) (hcalm : b₀.Calm) : ¬b.Oscillates i text := by
  rintro ⟨w, hw, -, hpass⟩
  rw [h.passes] at hpass
  rcases h.writing i w hw with heq | hw
  · omega
  · have := hcalm i w hw
    omega

theorem Since.attempt_calm (h : Since b₀ b) (hcalm : b₀.Calm)
    (hnodup : (edits.map Prod.fst).Nodup) (hconflict : b.inConflict = false) :
    (b.attempt edits).inConflict = false := by
  rcases attempt_cases hconflict hnodup with ⟨heq, -⟩ | ⟨heq, -⟩ | ⟨-, e, -, -, hosc⟩
  · rw [heq]
    exact recordAll_keeps (P := (·.inConflict = false)) hconflict fun _ h _ _ => h
  · rwa [heq]
  · exact absurd hosc (h.not_oscillates hcalm)

theorem lastWriting?_recordAll (h : i ∉ edits.map Prod.fst) :
    (b.recordAll edits).lastWriting? i = b.lastWriting? i := by
  induction edits generalizing b with
  | nil => rfl
  | cons e edits ih =>
    rw [List.map_cons, List.mem_cons, not_or] at h
    rw [recordAll_cons, ih h.2, lastWriting?_record_of_ne h.1]

theorem lastWriting?_attempt (hnodup : (edits.map Prod.fst).Nodup) (h : ¬b.IsFree i) :
    (b.attempt edits).lastWriting? i = b.lastWriting? i := by
  refine attempt_keeps (P := (·.lastWriting? i = b.lastWriting? i)) hnodup rfl (fun _ hfree => ?_) rfl
  refine lastWriting?_recordAll fun hmem => ?_
  obtain ⟨e, he, rfl⟩ := List.mem_map.1 hmem
  exact h (hfree e he)

/-! ### A whole pass -/

theorem Since.mendAll (h : Since b₀ b) (hb : b.Holds s)
    (hrepairs : Carried s b.lineBreak repairs) : Since b₀ (b.mendAll repairs) :=
  (hb.mendAll (I := Since b₀) hrepairs h fun _ ch _ _ h' => h'.attempt (ch.nodup_edits s)).1

theorem Since.mendAll_calm (h : Since b₀ b) (hcalm : b₀.Calm) (hb : b.Holds s)
    (hrepairs : Carried s b.lineBreak repairs) (hconflict : b.inConflict = false) :
    (b.mendAll repairs).inConflict = false := by
  refine (hb.mendAll (I := fun b' => Since b₀ b' ∧ b'.inConflict = false) hrepairs
    ⟨h, hconflict⟩ ?_).1.2
  intro b' ch _ _ h'
  have hnodup := ch.nodup_edits s
  exact ⟨h'.1.attempt hnodup, h'.1.attempt_calm hcalm hnodup h'.2⟩

theorem lastWriting?_mendAll (hb : b.Holds s) (hrepairs : Carried s b.lineBreak repairs)
    (h : ¬b.IsFree i) : (b.mendAll repairs).lastWriting? i = b.lastWriting? i := by
  refine (hb.mendAll (I := fun b' => ¬b'.IsFree i ∧ b'.lastWriting? i = b.lastWriting? i)
    hrepairs ⟨h, rfl⟩ ?_).1.2
  intro b' ch hb' hwithin h'
  have hnodup := ch.nodup_edits s
  exact ⟨not_isFree_attempt hb' hnodup hwithin.lt h'.1,
    (lastWriting?_attempt hnodup h'.1).trans h'.2⟩

/-! ### The first change -/

theorem Untouched.writes_first {cmds : List Command} {ch : Change} {e : Nat × List Char}
    (h : b.Untouched s) (hhistory : s.size ≤ b.history.size)
    (hcarries : Carries s b.lineBreak cmds ch) (hwithin : ch.Within s)
    {es : List (Nat × List Char)} (hedits : ch.edits s = e :: es)
    (hrepairs : Carried s b.lineBreak repairs) :
    (∀ j, (b.mendAll (cmds :: repairs)).lastWriting? j = b.lastWriting? j) ∨
      ((b.mendAll (cmds :: repairs)).lastWriting? e.1 = some (b.writing e.1 e.2) ∧
        ¬b.Oscillates e.1 e.2) := by
  have hnodup := ch.nodup_edits s
  have hmend : b.mendAll (cmds :: repairs) = (b.attempt (ch.edits s)).mendAll repairs := by
    rw [mendAll_cons, hcarries b h.toHolds rfl]
  have hholds := h.toHolds.attempt hnodup
  have he : e ∈ ch.edits s := by
    rw [hedits]
    exact List.mem_cons_self
  rw [← attempt_lineBreak hnodup] at hrepairs
  rw [hmend]
  rcases attempt_cases h.calm hnodup with ⟨heq, hall⟩ | ⟨-, d, hd, hbad⟩ | ⟨heq, -⟩
  · refine .inr ⟨?_, (hall e he).2⟩
    have hedited : ¬(b.attempt (ch.edits s)).IsFree e.1 := by
      rw [heq]
      exact (h.toHolds.recordAll_of_mem hnodup hwithin.lt he).2
    have hlt : e.1 < b.history.size := Nat.lt_of_lt_of_le (hwithin.lt e he) hhistory
    rw [hedits, List.map_cons, List.nodup_cons] at hnodup
    rw [lastWriting?_mendAll hholds hrepairs hedited, heq, hedits, recordAll_cons,
      lastWriting?_recordAll hnodup.1]
    simp [lastWriting?, record, commit, hlt]
  · exact absurd (h.free d.1 (hwithin.lt d hd)) hbad
  · have hconflict : (b.attempt (ch.edits s)).inConflict = true := by rw [heq]
    refine .inl fun j => ?_
    rw [mendAll_of_inConflict hholds hrepairs hconflict, heq]
    rfl

theorem lastWriting?_startFile (b : EditBuffer) (content : List Char) (i : Nat) :
    (b.startFile content).lastWriting? i = none := by
  rw [lastWriting?, startFile, Array.getElem?_replicate]
  split <;> rfl

theorem lastWriting?_load (b : EditBuffer) (values : Array (List Char)) (i : Nat) :
    (b.startPass.load values).lastWriting? i = b.lastWriting? i := by
  unfold lastWriting? load startPass
  rw [Array.getElem?_append]
  split
  · rfl
  · rename_i hge
    have hnone : b.history[i]? = none := Array.getElem?_eq_none (Nat.le_of_not_lt hge)
    rw [hnone, Array.getElem?_replicate]
    split <;> rfl

end EditBuffer

/-! ### Pass after pass -/

namespace Fixer

variable {rs : Ruleset} {file : SourceFile} {t : Template} {fx : Fixer} {content : List Char}

/-- The fixer after another pass. -/
def next (fx : Fixer) (rs : Ruleset) (file : SourceFile) (t : Template) : Fixer :=
  { fx with buffer := fx.buffer.startPass }.pass rs file t

theorem passes_succ {remaining : Nat} (ht : tokenize fx.table content = .ok t) :
    passes rs file (remaining + 1) content fx =
      if (fx.next rs { file with content } t).buffer.isQuiet then
        (.ok content, fx.next rs { file with content } t)
      else if (fx.next rs { file with content } t).buffer.inConflict then
        passes rs file remaining content (fx.next rs { file with content } t)
      else passes rs file remaining (fx.next rs { file with content } t).buffer.text
        (fx.next rs { file with content } t) := by
  simp only [passes, ht]
  rfl

theorem next_table (fx : Fixer) : (fx.next rs file t).table = fx.table := pass_table _

section

variable (hrs : ∀ r ∈ rs.rules, r.isBuiltIn = true)
include hrs

theorem next_buffer (fx : Fixer) : (fx.next rs file t).buffer =
      ((fx.buffer.startPass.load t.stream.values).mendAll (rs.repairs file t)).endPass :=
  pass_buffer hrs

theorem since_next (fx : Fixer) {i : Nat} {w : Writing}
    (h : (fx.next rs file t).buffer.lastWriting? i = some w) :
    w.pass = fx.buffer.passes ∨ fx.buffer.lastWriting? i = some w := by
  rw [next_buffer hrs] at h
  rcases ((EditBuffer.Since.refl _).mendAll (EditBuffer.holds_load rfl t.stream)
    (carried_repairs hrs file t _)).writing i w h with h | h
  · exact .inl h
  · rw [EditBuffer.lastWriting?_load] at h
    exact .inr h

theorem next_passes (fx : Fixer) : (fx.next rs file t).buffer.passes = fx.buffer.passes + 1 := by
  rw [next_buffer hrs]
  exact congrArg (· + 1) ((EditBuffer.Since.refl _).mendAll (EditBuffer.holds_load rfl t.stream)
    (carried_repairs hrs file t _)).passes

theorem past_next (h : fx.buffer.Past) : (fx.next rs file t).buffer.Past := by
  intro i w hw
  rw [next_passes hrs]
  rcases since_next hrs fx hw with heq | hw
  · omega
  · have := h i w hw
    omega

theorem not_inConflict_of_calm (h : fx.buffer.Calm) :
    (fx.next rs file t).buffer.inConflict = false := by
  have hcalm : (fx.buffer.startPass.load t.stream.values).Calm := by
    intro i w hw
    rw [EditBuffer.lastWriting?_load] at hw
    exact h i w hw
  rw [next_buffer hrs]
  exact (EditBuffer.Since.refl _).mendAll_calm hcalm (EditBuffer.holds_load rfl t.stream)
    (carried_repairs hrs file t _) rfl

end

/-- The last pass has written the text to the index. -/
def Wrote (fx : Fixer) (i : Nat) (text : List Char) : Prop :=
  ∃ w, fx.buffer.lastWriting? i = some w ∧ w.current = text ∧ w.pass + 1 = fx.buffer.passes

theorem calm_of_unchanged (hrs : ∀ r ∈ rs.rules, r.isBuiltIn = true) (hpast : fx.buffer.Past)
    (h : ∀ j, (fx.next rs file t).buffer.lastWriting? j = fx.buffer.lastWriting? j) :
    (fx.next rs file t).buffer.Calm := by
  intro j w hw
  rw [h j] at hw
  have := hpast j w hw
  rw [next_passes hrs]
  omega

/-- Every pass over the same text starts with the same edit, which is written unless the pass writes
    nothing.  It is not written three times in a row. -/
theorem exists_first (hrs : ∀ r ∈ rs.rules, r.isBuiltIn = true) (file : SourceFile) (t : Template)
    (lineBreak : List Char) : ∃ i text, ∀ fx : Fixer, fx.buffer.lineBreak = lineBreak →
      fx.buffer.Past → (fx.next rs file t).buffer.Calm ∨
        ((fx.next rs file t).Wrote i text ∧ (fx.Wrote i text → ∀ w,
          (fx.next rs file t).buffer.lastWriting? i = some w → w.previous = text) ∧
          ¬fx.buffer.Oscillates i text) := by
  cases hrepairs : rs.repairs file t with
  | nil =>
    refine ⟨0, [], fun fx _ hpast => .inl (calm_of_unchanged hrs hpast fun j => ?_)⟩
    rw [next_buffer hrs, hrepairs]
    exact EditBuffer.lastWriting?_load ..
  | cons cmds repairs =>
    have hcarried := carried_repairs hrs file t lineBreak
    rw [hrepairs] at hcarried
    obtain ⟨ch, hcarries, hwithin⟩ := hcarried cmds List.mem_cons_self
    obtain ⟨⟨i, text⟩, es, hedits⟩ := List.exists_cons_of_ne_nil (ch.edits_ne_nil t.stream)
    refine ⟨i, text, ?_⟩
    rintro fx rfl hpast
    have hhistory : t.stream.size ≤ (fx.buffer.startPass.load t.stream.values).history.size := by
      simp only [EditBuffer.load, EditBuffer.startPass, TokenStream.values, TokenStream.size,
        Array.size_append, Array.size_replicate, Array.size_map]
      omega
    have hbuffer : (fx.next rs file t).buffer =
        ((fx.buffer.startPass.load t.stream.values).mendAll (cmds :: repairs)).endPass := by
      rw [next_buffer hrs, hrepairs]
    rcases (fx.buffer.untouched_load t.stream).writes_first hhistory hcarries hwithin hedits
      (fun cmds' h => hcarried cmds' (List.mem_cons_of_mem _ h)) with hsame | ⟨hwrote, hosc⟩
    · refine .inl (calm_of_unchanged hrs hpast fun j => ?_)
      rw [hbuffer]
      exact (hsame j).trans (EditBuffer.lastWriting?_load ..)
    · have hlast : (fx.next rs file t).buffer.lastWriting? i =
          some ((fx.buffer.startPass.load t.stream.values).writing i text) := by
        rw [hbuffer]
        exact hwrote
      refine .inr ⟨⟨_, hlast, rfl, (next_passes hrs fx).symm⟩, ?_, ?_⟩
      · rintro ⟨w₀, hw₀, rfl, -⟩ w hw
        rw [hlast] at hw
        cases hw
        rw [← EditBuffer.lastWriting?_load _ t.stream.values] at hw₀
        simp only [EditBuffer.writing, hw₀]
      · rintro ⟨w, hw, hosc'⟩
        rw [← EditBuffer.lastWriting?_load _ t.stream.values] at hw
        exact hosc ⟨w, hw, hosc'⟩

/-- The fixer can go on with the text: it cuts it into these tokens, and its history is sound. -/
structure Ready (fx : Fixer) (content : List Char) (t : Template) : Prop where
  template : tokenize fx.table content = .ok t
  lineBreak : IsGap fx.buffer.lineBreak
  past : fx.buffer.Past

theorem Ready.lineBreak_next (hrs : ∀ r ∈ rs.rules, r.isBuiltIn = true) (h : fx.Ready content t)
    (file : SourceFile) : (fx.next rs file t).buffer.lineBreak = fx.buffer.lineBreak :=
  (content_pass hrs file h.template h.lineBreak).2

theorem Ready.next (hrs : ∀ r ∈ rs.rules, r.isBuiltIn = true) (h : fx.Ready content t)
    (file : SourceFile) : (fx.next rs file t).Ready content t := by
  refine ⟨?_, ?_, past_next hrs h.past⟩
  · rw [next_table]
    exact h.template
  · rw [h.lineBreak_next hrs]
    exact h.lineBreak

/-- After at most `n` passes in conflict over the text there is one without. -/
def Settles (rs : Ruleset) (file : SourceFile) (content : List Char) (t : Template) (n : Nat)
    (fx : Fixer) : Prop :=
  ∃ fx' k, k ≤ n ∧ fx'.Ready content t ∧ fx'.table = fx.table ∧
    fx'.buffer.lineBreak = fx.buffer.lineBreak ∧
    (fx'.next rs { file with content } t).buffer.inConflict = false ∧
    ∀ remaining, passes rs file (remaining + k + 1) content fx =
      passes rs file (remaining + 1) content fx'

section

variable (hrs : ∀ r ∈ rs.rules, r.isBuiltIn = true) (h : fx.Ready content t)
include hrs h

theorem settles_of_calm {n : Nat} (hcalm : fx.buffer.Calm) : Settles rs file content t n fx :=
  ⟨fx, 0, Nat.zero_le n, h, rfl, rfl, not_inConflict_of_calm hrs hcalm, fun _ => rfl⟩

theorem settles_succ {n : Nat}
    (hnext : Settles rs file content t n (fx.next rs { file with content } t)) :
    Settles rs file content t (n + 1) fx := by
  cases hconflict : (fx.next rs { file with content } t).buffer.inConflict with
  | false => exact ⟨fx, 0, Nat.zero_le _, h, rfl, rfl, hconflict, fun _ => rfl⟩
  | true =>
    obtain ⟨fx', k, hk, hready, htable, hbreak, hcalm, hpasses⟩ := hnext
    refine ⟨fx', k + 1, by omega, hready, by rw [htable, next_table],
      by rw [hbreak, h.lineBreak_next hrs], hcalm, fun remaining => ?_⟩
    have hloud : (fx.next rs { file with content } t).buffer.isQuiet = false := by
      simp [EditBuffer.isQuiet, hconflict]
    rw [← hpasses, passes_succ h.template, hloud, hconflict]
    rfl

/-- **Conflicts do not last.** Among four passes over the same text there is one without a conflict. -/
theorem settles (file : SourceFile) : Settles rs file content t 3 fx := by
  obtain ⟨i, text, hfirst⟩ := exists_first hrs { file with content } t fx.buffer.lineBreak
  have hready₁ := h.next hrs { file with content }
  have hready₂ := hready₁.next hrs { file with content }
  have hready₃ := hready₂.next hrs { file with content }
  have hbreak₁ := h.lineBreak_next hrs { file with content }
  have hbreak₂ := (hready₁.lineBreak_next hrs { file with content }).trans hbreak₁
  refine settles_succ hrs h ?_
  rcases hfirst fx rfl h.past with hcalm | ⟨hwrote₁, -⟩
  · exact settles_of_calm hrs hready₁ hcalm
  refine settles_succ hrs hready₁ ?_
  rcases hfirst _ hbreak₁ hready₁.past with hcalm | ⟨hwrote₂, hprevious, -⟩
  · exact settles_of_calm hrs hready₂ hcalm
  refine settles_succ hrs hready₂ ?_
  rcases hfirst _ hbreak₂ hready₂.past with hcalm | ⟨-, -, hosc⟩
  · exact settles_of_calm hrs hready₃ hcalm
  · -- Written twice in a row, the text oscillates.
    obtain ⟨w, hw, -, hpass⟩ := hwrote₂
    exact absurd ⟨w, hw, (hprevious hwrote₁ w hw).symm, hpass⟩ hosc

end

end Fixer

end TwigStyle
