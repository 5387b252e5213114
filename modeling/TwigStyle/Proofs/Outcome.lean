import TwigStyle.Proofs.Content

/-!
# What a pass leaves behind

A change is recorded as a whole or not at all, and a value is edited once in a pass.  So at its end
every value is that of its token, or it belongs to a proposed change of which all the values are
there (`Made`).
-/

namespace TwigStyle

namespace EditBuffer

variable {b : EditBuffer} {s : TokenStream} {P : Change → Prop} {ch : Change} {i : Nat}
  {edits : List (Nat × List Char)} {repairs : List (List Command)} {e : Nat × List Char}

/-! ### Recorded values -/

theorem recordAll_of_notMem (h : i ∉ edits.map Prod.fst) :
    (b.recordAll edits).values[i]? = b.values[i]? ∧
      ((b.recordAll edits).IsFree i ↔ b.IsFree i) := by
  induction edits generalizing b with
  | nil => exact ⟨rfl, Iff.rfl⟩
  | cons e edits ih =>
    rw [List.map_cons, List.mem_cons, not_or] at h
    obtain ⟨hvalue, hfree⟩ := ih (b := b.record e.1 e.2) h.2
    rw [recordAll_cons, hvalue, hfree, isFree_record_of_ne h.1]
    exact ⟨Array.getElem?_setIfInBounds_ne (Ne.symm h.1), Iff.rfl⟩

theorem recordAll_value (hnodup : (edits.map Prod.fst).Nodup)
    (hlt : ∀ e ∈ edits, e.1 < b.values.size) (he : e ∈ edits) :
    (b.recordAll edits).values[e.1]? = some e.2 := by
  induction edits generalizing b with
  | nil => cases he
  | cons d edits ih =>
    rw [List.map_cons, List.nodup_cons] at hnodup
    rw [recordAll_cons]
    rcases List.mem_cons.1 he with rfl | he
    · rw [(recordAll_of_notMem hnodup.1).1]
      exact Array.getElem?_setIfInBounds_self_of_lt (hlt e List.mem_cons_self)
    · apply ih hnodup.2 _ he
      intro d' hd'
      rw [record, commit, Array.size_setIfInBounds]
      exact hlt d' (List.mem_cons_of_mem d hd')

theorem Holds.recordAll_of_mem (hb : b.Holds s) (hnodup : (edits.map Prod.fst).Nodup)
    (hlt : ∀ e ∈ edits, e.1 < s.size) (he : e ∈ edits) :
    (b.recordAll edits).values[e.1]? = some e.2 ∧ ¬(b.recordAll edits).IsFree e.1 := by
  refine ⟨recordAll_value hnodup (by rwa [hb.size]) he, ?_⟩
  induction edits generalizing b with
  | nil => cases he
  | cons d edits ih =>
    rw [List.map_cons, List.nodup_cons] at hnodup
    rw [recordAll_cons]
    rcases List.mem_cons.1 he with rfl | he
    · rw [(recordAll_of_notMem (b := b.record e.1 e.2) hnodup.1).2]
      exact hb.not_isFree_record
    · exact ih hb.record hnodup.2 (fun d' hd' => hlt d' (List.mem_cons_of_mem d hd')) he

theorem not_isFree_attempt (hb : b.Holds s) (hnodup : (edits.map Prod.fst).Nodup)
    (hlt : ∀ e ∈ edits, e.1 < s.size) (h : ¬b.IsFree i) : ¬(b.attempt edits).IsFree i := by
  refine attempt_keeps (P := fun b => ¬b.IsFree i) hnodup h (fun _ _ => ?_) h
  by_cases hmem : i ∈ edits.map Prod.fst
  · obtain ⟨e, he, rfl⟩ := List.mem_map.1 hmem
    exact (hb.recordAll_of_mem hnodup hlt he).2
  · rwa [(recordAll_of_notMem hmem).2]

/-! ### Changes that are there -/

/-- The change is there: its values are in the buffer, and they stay. -/
def Shows (b : EditBuffer) (s : TokenStream) (ch : Change) : Prop :=
  ∀ e ∈ ch.edits s, b.values[e.1]? = some e.2 ∧ ¬b.IsFree e.1

/-- Every edited value belongs to a change that is there. -/
def Made (b : EditBuffer) (s : TokenStream) (P : Change → Prop) : Prop :=
  ∀ i < s.size, ¬b.IsFree i → ∃ ch, P ch ∧ b.Shows s ch ∧ i ∈ (ch.edits s).map Prod.fst

theorem Made.attempt (h : b.Made s P) (hb : b.Holds s) (hch : P ch) (hwithin : ch.Within s) :
    (b.attempt (ch.edits s)).Made s P := by
  have hnodup := ch.nodup_edits s
  refine attempt_keeps (P := (·.Made s P)) hnodup h (fun _ hfree i hi hedited => ?_) h
  by_cases hmem : i ∈ (ch.edits s).map Prod.fst
  · exact ⟨ch, hch, fun e he => hb.recordAll_of_mem hnodup hwithin.lt he, hmem⟩
  · rw [(recordAll_of_notMem hmem).2] at hedited
    obtain ⟨ch', hch', hshows, hmem'⟩ := h i hi hedited
    refine ⟨ch', hch', ?_, hmem'⟩
    intro e he
    -- The new change is about free values, so no value of the other one is among them.
    have hother : e.1 ∉ (ch.edits s).map Prod.fst := by
      intro hmem
      obtain ⟨d, hd, heq⟩ := List.mem_map.1 hmem
      apply (hshows e he).2
      rw [← heq]
      exact hfree d hd
    obtain ⟨hvalue, hiff⟩ := recordAll_of_notMem (b := b) hother
    rw [hvalue, hiff]
    exact hshows e he

theorem Made.mendAll (h : b.Made s P) (hb : b.Holds s) (hrepairs : ∀ cmds ∈ repairs,
      ∃ ch, Carries s b.lineBreak cmds ch ∧ P ch ∧ ch.Within s) :
    (b.mendAll repairs).Made s P ∧ (b.mendAll repairs).Holds s := by
  obtain ⟨hmade, hholds, -⟩ := hb.mendAll (I := (·.Made s P)) hrepairs h
    fun _ _ hb' hch h' => h'.attempt hb' hch.1 hch.2
  exact ⟨hmade, hholds⟩

/-! ### Changes that are tried -/

/-- The repairs carry changes of tokens of the stream. -/
def Carried (s : TokenStream) (lineBreak : List Char) (repairs : List (List Command)) : Prop :=
  ∀ cmds ∈ repairs, ∃ ch, Carries s lineBreak cmds ch ∧ ch.Within s

theorem mendAll_of_inConflict (hb : b.Holds s) (hrepairs : Carried s b.lineBreak repairs)
    (h : b.inConflict = true) : b.mendAll repairs = b := by
  refine (hb.mendAll (I := fun b' => b' = b) hrepairs rfl ?_).1
  rintro b' ch - - rfl
  exact attempt_of_inConflict h

/-- A change that a pass has tried without a conflict is there, or it has met another one. -/
theorem Holds.tried {cmds : List Command} (hb : b.Holds s)
    (hrepairs : Carried s b.lineBreak repairs) (hmem : cmds ∈ repairs)
    (hcarries : Carries s b.lineBreak cmds ch) (hwithin : ch.Within s)
    (hconflict : (b.mendAll repairs).inConflict = false) :
    ∃ e ∈ ch.edits s, ¬(b.mendAll repairs).IsFree e.1 := by
  obtain ⟨before, after, rfl⟩ := List.append_of_mem hmem
  have hbefore : Carried s b.lineBreak before :=
    fun cmds' h => hrepairs cmds' (List.mem_append_left _ h)
  obtain ⟨-, hb₁, hbreak₁⟩ := hb.mendAll (I := fun _ => True) hbefore trivial fun _ _ _ _ h => h
  have hnodup := ch.nodup_edits s
  have hmend : b.mendAll (before ++ cmds :: after) =
      ((b.mendAll before).attempt (ch.edits s)).mendAll after := by
    rw [mendAll_append, mendAll_cons, hcarries _ hb₁ hbreak₁]
  have hb₂ := hb₁.attempt hnodup
  have hafter : Carried s ((b.mendAll before).attempt (ch.edits s)).lineBreak after := by
    rw [attempt_lineBreak hnodup, hbreak₁]
    exact fun cmds' h => hrepairs cmds' (List.mem_append_right _ (List.mem_cons_of_mem _ h))
  have hcalm : ((b.mendAll before).attempt (ch.edits s)).inConflict = false := by
    rw [Bool.eq_false_iff]
    intro h
    rw [hmend, mendAll_of_inConflict hb₂ hafter h, h] at hconflict
    cases hconflict
  have hcalm₁ : (b.mendAll before).inConflict = false := by
    rw [Bool.eq_false_iff]
    intro h
    rw [attempt_of_inConflict h, h] at hcalm
    cases hcalm
  have hedited : ∃ e ∈ ch.edits s, ¬((b.mendAll before).attempt (ch.edits s)).IsFree e.1 := by
    rcases attempt_cases hcalm₁ hnodup with ⟨heq, -⟩ | ⟨heq, hbad⟩ | ⟨heq, -⟩
    · obtain ⟨e, es, hedits⟩ := List.exists_cons_of_ne_nil (ch.edits_ne_nil s)
      have he : e ∈ ch.edits s := by
        rw [hedits]
        exact List.mem_cons_self
      rw [heq]
      exact ⟨e, he, (hb₁.recordAll_of_mem hnodup hwithin.lt he).2⟩
    · rwa [heq]
    · rw [heq] at hcalm
      cases hcalm
  obtain ⟨e, he, hedited⟩ := hedited
  refine ⟨e, he, ?_⟩
  rw [hmend]
  exact (hb₂.mendAll (I := fun b' => ¬b'.IsFree e.1) hafter hedited fun _ ch' hb' hwithin' h' =>
    not_isFree_attempt hb' (ch'.nodup_edits s) hwithin'.lt h').1

end EditBuffer

/-- The rules that apply to a file. -/
def Ruleset.applying (rs : Ruleset) (file : SourceFile) : Ruleset :=
  ⟨rs.rules.filter (·.appliesTo file)⟩

/-- A rule of the set proposes the change. -/
def Ruleset.Proposed (rs : Ruleset) (s : TokenStream) (lineBreak : List Char) (ch : Change) : Prop :=
  ∃ r ∈ rs.rules, Proposes s lineBreak r ch

namespace Fixer

variable {rs : Ruleset} {ch : Change}

theorem carried_repairs (hrs : ∀ r ∈ rs.rules, r.isBuiltIn = true) (file : SourceFile)
    (t : Template) (lineBreak : List Char) :
    EditBuffer.Carried t.stream lineBreak (rs.repairs file t) := by
  intro cmds hcmds
  obtain ⟨r, -, -, ch, hch, hcarries⟩ := exists_of_mem_repairs hrs hcmds lineBreak
  exact ⟨ch, hcarries, hch.within⟩

theorem made_pass_applying (fx : Fixer) (hrs : ∀ r ∈ rs.rules, r.isBuiltIn = true)
    (file : SourceFile) (t : Template) :
    ({ fx with buffer := fx.buffer.startPass }.pass rs file t).buffer.Made t.stream
        ((rs.applying file).Proposed t.stream fx.buffer.lineBreak) ∧
      ({ fx with buffer := fx.buffer.startPass }.pass rs file t).buffer.Holds t.stream := by
  have huntouched := fx.buffer.untouched_load t.stream
  have hstart : (fx.buffer.startPass.load t.stream.values).Made t.stream
      ((rs.applying file).Proposed t.stream fx.buffer.lineBreak) :=
    fun i hi hedited => absurd (huntouched.free i hi) hedited
  have hrepairs : ∀ cmds ∈ rs.repairs file t, ∃ ch,
      Carries t.stream fx.buffer.lineBreak cmds ch ∧
        (rs.applying file).Proposed t.stream fx.buffer.lineBreak ch ∧ ch.Within t.stream := by
    intro cmds hcmds
    obtain ⟨r, hr, happlies, ch, hch, hcarries⟩ :=
      exists_of_mem_repairs hrs hcmds fx.buffer.lineBreak
    exact ⟨ch, hcarries, ⟨r, List.mem_filter.2 ⟨hr, happlies⟩, hch⟩, hch.within⟩
  obtain ⟨hmade, hholds⟩ := hstart.mendAll huntouched.toHolds hrepairs
  rw [pass_buffer hrs]
  exact ⟨hmade, hholds.idle, hholds.size, hholds.flags, hholds.value⟩

theorem made_pass (fx : Fixer) (hrs : ∀ r ∈ rs.rules, r.isBuiltIn = true)
    (file : SourceFile) (t : Template) :
    ({ fx with buffer := fx.buffer.startPass }.pass rs file t).buffer.Made t.stream
        (rs.Proposed t.stream fx.buffer.lineBreak) ∧
      ({ fx with buffer := fx.buffer.startPass }.pass rs file t).buffer.Holds t.stream := by
  obtain ⟨hmade, hholds⟩ := made_pass_applying fx hrs file t
  refine ⟨?_, hholds⟩
  intro i hi hedited
  obtain ⟨ch, ⟨r, hr, hch⟩, hshows, hmem⟩ := hmade i hi hedited
  exact ⟨ch, ⟨r, (List.mem_filter.1 hr).1, hch⟩, hshows, hmem⟩

theorem exists_repair {file : SourceFile} {t : Template} {r : Rule} {lineBreak : List Char}
    (hr : r ∈ rs.rules) (happlies : r.appliesTo file = true) (hdirectives : t.directives = [])
    (h : Proposes t.stream lineBreak r ch) :
    ∃ cmds ∈ rs.repairs file t, Carries t.stream lineBreak cmds ch := by
  obtain ⟨f, hf, hcarries⟩ := h.exists_finding
  refine ⟨_, List.mem_flatMap.2 ⟨r, ?_, ?_⟩, hcarries⟩
  · exact List.mem_filter.2 ⟨List.mem_filter.2 ⟨hr, h.isFixable⟩, happlies⟩
  · refine List.mem_map.2 ⟨f, List.mem_filter.2 ⟨hf, ?_⟩, rfl⟩
    rw [hdirectives]
    rfl

/-- Everything that is proposed in a pass without a conflict is there, or has met something that is. -/
theorem tried_pass (fx : Fixer) (hrs : ∀ r ∈ rs.rules, r.isBuiltIn = true) (file : SourceFile)
    (t : Template) (happlies : ∀ r ∈ rs.rules, r.appliesTo file = true)
    (hdirectives : t.directives = [])
    (hconflict : ({ fx with buffer := fx.buffer.startPass }.pass rs file t).buffer.inConflict = false)
    (h : rs.Proposed t.stream fx.buffer.lineBreak ch) : ∃ e ∈ ch.edits t.stream,
      ¬({ fx with buffer := fx.buffer.startPass }.pass rs file t).buffer.IsFree e.1 := by
  obtain ⟨r, hr, hch⟩ := h
  obtain ⟨cmds, hmem, hcarries⟩ := exists_repair hr (happlies r hr) hdirectives hch
  rw [pass_buffer hrs] at hconflict ⊢
  exact (EditBuffer.holds_load rfl t.stream).tried (carried_repairs hrs file t _) hmem hcarries
    hch.within hconflict

end Fixer

end TwigStyle
