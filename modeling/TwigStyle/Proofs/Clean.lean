import TwigStyle.Proofs.Lossless
import TwigStyle.Proofs.Repairs
import TwigStyle.Rule.Standard

/-!
# A fixed file is clean

Fixing stops at the first pass that edits nothing, but a pass could edit nothing for the wrong
reason: all its repairs might have been refused.  They are not.  Before the first repair of a pass
no value is edited, so that repair is either recorded, which counts an edit, or an oscillation,
which is a conflict; and no later repair undoes the one or the other (`busy_mendAll`).  A quiet pass
therefore had no repair at all, and a file without repairs is a file without findings.
-/

namespace TwigStyle

namespace EditBuffer

variable {b : EditBuffer} {s : TokenStream} {edits : List (Nat × List Char)}
  {repairs : List (List Command)}

/-! ### Counting edits -/

/-- The pass has accepted an edit or is in conflict. -/
def Busy (b : EditBuffer) : Prop := 0 < b.edits ∨ b.inConflict = true

/-- The buffer holds a stream of which nothing was edited yet. -/
structure Untouched (b : EditBuffer) (s : TokenStream) : Prop extends b.Holds s where
  calm : b.inConflict = false
  free : ∀ i < s.size, b.IsFree i

theorem isQuiet_iff : b.isQuiet = true ↔ ¬b.Busy := by
  simp [isQuiet, Busy]

theorem recordAll_edits (b : EditBuffer) (edits : List (Nat × List Char)) :
    (b.recordAll edits).edits = b.edits + edits.length := by
  induction edits generalizing b with
  | nil => rfl
  | cons e edits ih =>
    rw [recordAll_cons, ih, List.length_cons]
    change b.edits + 1 + edits.length = _
    omega

theorem attempt_lineBreak (hnodup : (edits.map Prod.fst).Nodup) :
    (b.attempt edits).lineBreak = b.lineBreak :=
  attempt_keeps (P := (·.lineBreak = b.lineBreak)) hnodup rfl
    (fun _ _ => recordAll_keeps (P := (·.lineBreak = b.lineBreak)) rfl fun _ h _ _ => h) rfl

theorem Busy.attempt (h : b.Busy) (hnodup : (edits.map Prod.fst).Nodup) :
    (b.attempt edits).Busy := by
  refine attempt_keeps (P := Busy) hnodup h (fun hcalm _ => ?_) (.inr rfl)
  rcases h with h | h
  · refine .inl ?_
    rw [recordAll_edits]
    omega
  · rw [hcalm] at h
    cases h

theorem Untouched.attempt (h : b.Untouched s) (hne : edits ≠ [])
    (hnodup : (edits.map Prod.fst).Nodup) (hlt : ∀ e ∈ edits, e.1 < s.size) :
    (b.attempt edits).Busy := by
  rcases attempt_cases h.calm hnodup with ⟨heq, -⟩ | ⟨-, e, he, hbad⟩ | ⟨heq, -⟩
  · refine .inl ?_
    have := List.length_pos_iff.2 hne
    rw [heq, recordAll_edits]
    omega
  · exact absurd (h.free e.1 (hlt e he)) hbad
  · rw [heq]
    exact .inr rfl

/-! ### A whole pass -/

theorem untouched_load (b : EditBuffer) (s : TokenStream) :
    (b.startPass.load s.values).Untouched s := by
  refine ⟨holds_load rfl s, rfl, ?_⟩
  intro i hi
  refine ⟨by simpa [load, TokenStream.values, TokenStream.size] using hi, ?_⟩
  have hi' : i < s.tokens.size := hi
  simp [load, TokenStream.values, hi']

theorem Holds.mendAll {I : EditBuffer → Prop} {P : Change → Prop} (hb : b.Holds s)
    (hrepairs : ∀ cmds ∈ repairs, ∃ ch, Carries s b.lineBreak cmds ch ∧ P ch) (hI : I b)
    (hstep : ∀ b' ch, b'.Holds s → P ch → I b' → I (b'.attempt (ch.edits s))) :
    I (b.mendAll repairs) ∧ (b.mendAll repairs).Holds s ∧
      (b.mendAll repairs).lineBreak = b.lineBreak := by
  induction repairs generalizing b with
  | nil => exact ⟨hI, hb, rfl⟩
  | cons cmds repairs ih =>
    obtain ⟨ch, hcarries, hch⟩ := hrepairs cmds List.mem_cons_self
    have hnodup := ch.nodup_edits s
    have hbreak := attempt_lineBreak (b := b) hnodup
    rw [mendAll_cons, hcarries b hb rfl]
    obtain ⟨hI', hb', hbreak'⟩ := ih (hb.attempt hnodup) (by
      rw [hbreak]
      exact fun cmds' h => hrepairs cmds' (List.mem_cons_of_mem _ h)) (hstep b ch hb hch hI)
    exact ⟨hI', hb', hbreak'.trans hbreak⟩

/-- Repairs that carry changes keep a buffer busy. -/
theorem busy_mendAll (hb : b.Holds s) (hbusy : b.Busy)
    (hrepairs : ∀ cmds ∈ repairs, ∃ ch, Carries s b.lineBreak cmds ch) :
    (b.mendAll repairs).Busy := by
  refine (hb.mendAll (P := fun _ => True) ?_ hbusy ?_).1
  · intro cmds hcmds
    obtain ⟨ch, hcarries⟩ := hrepairs cmds hcmds
    exact ⟨ch, hcarries, trivial⟩
  · exact fun b' ch _ _ hbusy' => hbusy'.attempt (ch.nodup_edits s)

/-- A pass with a repair is not quiet. -/
theorem Untouched.busy_mendAll (h : b.Untouched s) (hne : repairs ≠ [])
    (hrepairs : ∀ cmds ∈ repairs, ∃ ch, Carries s b.lineBreak cmds ch ∧ ch.Within s) :
    (b.mendAll repairs).Busy := by
  cases repairs with
  | nil => exact absurd rfl hne
  | cons cmds repairs =>
    obtain ⟨ch, hch, hwithin⟩ := hrepairs cmds List.mem_cons_self
    have hnodup := ch.nodup_edits s
    rw [mendAll_cons, hch b h.toHolds rfl]
    refine EditBuffer.busy_mendAll (h.toHolds.attempt hnodup)
      (h.attempt (ch.edits_ne_nil s) hnodup hwithin.lt) ?_
    rw [attempt_lineBreak hnodup]
    intro cmds' hmem
    obtain ⟨ch', hch', -⟩ := hrepairs cmds' (List.mem_cons_of_mem _ hmem)
    exact ⟨ch', hch'⟩

end EditBuffer

namespace Fixer

variable {rs : Ruleset} {file : SourceFile} {t : Template} {fx fx' : Fixer}
  {out content : List Char} {remaining : Nat}

theorem mend_table (directives : List ViolationId) (s : TokenStream) (rule : String) (call : Nat)
    (fx : Fixer) (f : Finding) : (mend directives s rule call fx f).table = fx.table := by
  unfold mend
  split <;> rfl

theorem applyRule_table (fx : Fixer) (r : Rule) : (applyRule file t fx r).table = fx.table := by
  have hfold : ∀ (rule : String) (call : Nat) (found : List Finding) (fx : Fixer),
      (found.foldl (mend t.directives t.stream rule call) fx).table = fx.table := by
    intro rule call found
    induction found with
    | nil => exact fun _ => rfl
    | cons f found ih =>
      intro fx
      rw [List.foldl_cons, ih, mend_table]
  unfold applyRule
  split
  · exact hfold _ _ _ _
  · rfl

theorem pass_table (fx : Fixer) : (fx.pass rs file t).table = fx.table := by
  have hfold : ∀ (rules : List Rule) (fx : Fixer),
      (rules.foldl (applyRule file t) fx).table = fx.table := by
    intro rules
    induction rules with
    | nil => exact fun _ => rfl
    | cons r rules ih =>
      intro fx
      rw [List.foldl_cons, ih, applyRule_table]
  exact hfold _ _

theorem isQuiet_pass_iff (hrs : ∀ r ∈ rs.rules, r.isBuiltIn = true) :
    ({ fx with buffer := fx.buffer.startPass }.pass rs file t).buffer.isQuiet = true ↔
      rs.repairs file t = [] := by
  rw [pass_buffer hrs, EditBuffer.isQuiet_iff]
  constructor
  · intro hquiet
    apply Classical.byContradiction
    intro hne
    refine hquiet (EditBuffer.Untouched.busy_mendAll (fx.buffer.untouched_load t.stream) hne ?_)
    intro cmds hmem
    obtain ⟨r, -, -, ch, hch, hcarries⟩ := exists_of_mem_repairs hrs hmem _
    exact ⟨ch, hcarries, hch.within⟩
  · intro hnil
    rw [hnil]
    rintro (h | h) <;> cases h

theorem repairs_of_passes_ok (hrs : ∀ r ∈ rs.rules, r.isBuiltIn = true)
    (h : passes rs file remaining content fx = (.ok out, fx')) :
    ∃ t, tokenize fx.table out = .ok t ∧ rs.repairs { file with content := out } t = [] := by
  induction remaining generalizing content fx with
  | zero => cases h
  | succ remaining ih =>
    simp only [passes] at h
    split at h
    · cases h
    · rename_i t ht
      split at h
      · rename_i hquiet
        cases h
        exact ⟨t, ht, (isQuiet_pass_iff hrs).1 hquiet⟩
      · split at h
        · obtain ⟨t', ht', hnil⟩ := ih h
          rw [pass_table] at ht'
          exact ⟨t', ht', hnil⟩
        · obtain ⟨t', ht', hnil⟩ := ih h
          rw [pass_table] at ht'
          exact ⟨t', ht', hnil⟩

theorem passes_of_repairs_nil (hrs : ∀ r ∈ rs.rules, r.isBuiltIn = true)
    (ht : tokenize fx.table content = .ok t) (hnil : rs.repairs { file with content } t = []) :
    ∃ fx', passes rs file (remaining + 1) content fx = (.ok content, fx') ∧
      fx'.buffer.passes = fx.buffer.passes + 1 := by
  refine ⟨{ fx with buffer := fx.buffer.startPass }.pass rs { file with content } t, ?_, ?_⟩
  · simp only [passes, ht]
    rw [if_pos ((isQuiet_pass_iff hrs).2 hnil)]
  · rw [pass_buffer hrs, hnil]
    rfl

end Fixer

/-! ### Linting what was fixed -/

namespace Report

variable {r r' : Report} {v : Violation}

theorem covers_of_add (h : r.add v = .ok r') (file : Path) : r'.covers file = r.covers file := by
  have happend : ∀ files : List (Path × List Violation),
      ((appendTo v files).any fun entry => entry.1.same file) =
        files.any fun entry => entry.1.same file := by
    intro files
    induction files with
    | nil => rfl
    | cons entry files ih =>
      unfold appendTo
      split
      · rfl
      · rw [List.any_cons, List.any_cons, ih]
  unfold add at h
  split at h
  · cases h
    exact happend r.files
  · cases h

theorem mem_allViolations_of_add {v' : Violation} (h : r.add v = .ok r')
    (hmem : v' ∈ r'.allViolations none) : v' ∈ r.allViolations none ∨ v' = v := by
  have happend : ∀ files : List (Path × List Violation),
      v' ∈ (appendTo v files).flatMap (·.2) → v' ∈ files.flatMap (·.2) ∨ v' = v := by
    intro files
    induction files with
    | nil => exact fun h => .inl h
    | cons entry files ih =>
      intro h
      unfold appendTo at h
      split at h
      · simp only [List.flatMap_cons, List.mem_append, List.mem_singleton] at h ⊢
        rcases h with (h | h) | h
        · exact .inl (.inl h)
        · exact .inr h
        · exact .inl (.inr h)
      · simp only [List.flatMap_cons, List.mem_append] at h ⊢
        rcases h with h | h
        · exact .inl (.inl h)
        · rcases ih h with h | h
          · exact .inl (.inr h)
          · exact .inr h
  unfold add at h
  split at h
  · cases h
    have hmem := happend r.files (List.mem_filter.1 hmem).1
    rcases hmem with hmem | heq
    · exact .inl (List.mem_filter.2 ⟨hmem, rfl⟩)
    · exact .inr heq
  · cases h

theorem addAll_ok {vs : List Violation} (h : ∀ v ∈ vs, r.covers v.file = true) :
    ∃ r', r.addAll vs = .ok r' ∧
      ∀ v ∈ r'.allViolations none, v ∈ r.allViolations none ∨ v ∈ vs := by
  induction vs generalizing r with
  | nil => exact ⟨r, rfl, fun v hv => .inl hv⟩
  | cons v vs ih =>
    obtain ⟨r₁, hr₁⟩ : ∃ r₁, r.add v = .ok r₁ := by
      rw [add, if_pos (h v List.mem_cons_self)]
      exact ⟨_, rfl⟩
    have hcovers : ∀ v' ∈ vs, r₁.covers v'.file = true := by
      intro v' hv'
      rw [covers_of_add hr₁]
      exact h v' (List.mem_cons_of_mem v hv')
    obtain ⟨r', hr', hall⟩ := ih hcovers
    refine ⟨r', ?_, ?_⟩
    · rw [addAll, hr₁]
      exact hr'
    intro v' hv'
    rcases hall v' hv' with hv' | hv'
    · rcases mem_allViolations_of_add hr₁ hv' with hv' | rfl
      · exact .inl hv'
      · exact .inr List.mem_cons_self
    · exact .inr (List.mem_cons_of_mem v hv')

end Report

namespace Ruleset

variable {rs : Ruleset} {file : SourceFile} {t : Template} {v : Violation}

theorem name_of_not_isFixable {r : Rule} (hbuiltIn : r.isBuiltIn = true)
    (h : r.isFixable = false) : r.name = "VariableName" := by
  induction r with
  | variableName => rfl
  | rename | marker | spacing | script => cases hbuiltIn
  | onPaths inner globs ih => exact ih hbuiltIn h
  | _ => cases h

theorem exists_of_mem_violations (hnil : rs.repairs file t = [])
    (hv : v ∈ rs.violations file t.stream t.directives) :
    ∃ r ∈ rs.rules, r.isFixable = false ∧ v.rule = some r.name ∧ v.file = file.path := by
  obtain ⟨r, hr, hv⟩ := List.mem_flatMap.1 hv
  obtain ⟨f, hf, rfl⟩ := List.mem_map.1 hv
  obtain ⟨hfound, hloud⟩ := List.mem_filter.1 hf
  unfold Rule.lintFindings at hfound
  split at hfound
  · rename_i happlies
    cases hfixable : r.isFixable
    · exact ⟨r, hr, hfixable, rfl, rfl⟩
    · -- A finding of a fixable rule has a repair.
      have hmem : f.repair.getD [] ∈ rs.repairs file t := by
        refine List.mem_flatMap.2 ⟨r, ?_, ?_⟩
        · exact List.mem_filter.2 ⟨List.mem_filter.2 ⟨hr, hfixable⟩, happlies⟩
        · exact List.mem_map.2 ⟨f, List.mem_filter.2 ⟨hfound, hloud⟩, rfl⟩
      rw [hnil] at hmem
      cases hmem
  · cases hfound

theorem rule_of_mem_violations (hrs : ∀ r ∈ rs.rules, r.isBuiltIn = true)
    (hnil : rs.repairs file t = []) (hv : v ∈ rs.violations file t.stream t.directives) :
    v.rule = some "VariableName" ∧ v.file = file.path := by
  obtain ⟨r, hr, hfixable, hname, hfile⟩ := exists_of_mem_violations hnil hv
  rw [hname, name_of_not_isFixable (hrs r hr) hfixable]
  exact ⟨rfl, hfile⟩

end Ruleset

/-- **A fixed file is clean.** What the fixer returns can be cut into tokens, linting it records
    nothing but names, and fixing it again takes one pass and changes nothing. -/
theorem fixFile_clean {fx fx' : Fixer} {rs : Ruleset} {file : SourceFile} {out : List Char}
    (hrs : ∀ r ∈ rs.rules, r.isBuiltIn = true) (h : fx.fixFile rs file = (.ok out, fx')) :
    ∃ t, tokenize fx.table out = .ok t ∧
      (∀ report : Report, report.covers file.path = true →
        ∃ report', rs.lint { file with content := out } t report = .ok report' ∧
          ∀ v ∈ report'.allViolations none,
            v ∈ report.allViolations none ∨ v.rule = some "VariableName") ∧
      ∀ again : Fixer, again.table = fx.table →
        ∃ again', again.fixFile rs { file with content := out } = (.ok out, again') ∧
          again'.buffer.passes = 1 := by
  obtain ⟨t, ht, hnil⟩ := Fixer.repairs_of_passes_ok hrs h
  refine ⟨t, ht, ?_, ?_⟩
  · intro report hcovers
    have hfiles : ∀ v ∈ rs.violations { file with content := out } t.stream t.directives,
        report.covers v.file = true := by
      intro v hv
      rw [(Ruleset.rule_of_mem_violations hrs hnil hv).2]
      exact hcovers
    obtain ⟨report', hreport', hall⟩ := Report.addAll_ok hfiles
    refine ⟨report', by rw [Ruleset.lint, if_pos hcovers, hreport'], ?_⟩
    intro v hv
    rcases hall v hv with hv | hv
    · exact .inl hv
    · exact .inr (Ruleset.rule_of_mem_violations hrs hnil hv).1
  · intro again htable
    rw [← htable] at ht
    let start : Fixer := { again with buffer := again.buffer.startFile out }
    have ht' : tokenize start.table out = .ok t := ht
    exact Fixer.passes_of_repairs_nil hrs ht' hnil

theorem eq_ok_of_toOption {ε α : Type} {x : Except ε α} {a : α} (h : x.toOption = some a) :
    x = .ok a := by
  cases x with
  | error e => cases h
  | ok b => exact congrArg Except.ok (Option.some.inj h)

/-- The default standard on a sum without spaces. -/
theorem fixFile_clean_sum :
    ∃ t, tokenize OperatorTable.default "\x7b\x7b a + b \x7d\x7d\n".toList = .ok t ∧
      ∀ again : Fixer, again.table = OperatorTable.default →
        ∃ again', again.fixFile ⟨Standard.full.rules⟩
            (.alone ⟨"a.twig"⟩ "\x7b\x7b a + b \x7d\x7d\n".toList) =
          (.ok "\x7b\x7b a + b \x7d\x7d\n".toList, again') ∧ again'.buffer.passes = 1 := by
  have hbuiltIn : ∀ r ∈ Standard.full.rules, r.isBuiltIn = true := by decide
  have hok : (Fixer.fixFile ⟨OperatorTable.default, {}, [], #[]⟩ ⟨Standard.full.rules⟩
      (.alone ⟨"a.twig"⟩ "\x7b\x7ba+b\x7d\x7d".toList)).1.toOption =
        some "\x7b\x7b a + b \x7d\x7d\n".toList := by decide +kernel
  obtain ⟨t, ht, -, hagain⟩ := fixFile_clean hbuiltIn (Prod.ext (eq_ok_of_toOption hok) rfl)
  exact ⟨t, ht, hagain⟩

end TwigStyle
