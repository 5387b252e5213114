import TwigStyle.Proofs.Recorded

/-!
# Reports keep their books

A report is changed by two calls: a violation is recorded, or a file is recorded as changed.  Both
name a file, and a call that names a file outside of the set is refused.  Four totals, the violations
of each file and the list of changed files are kept side by side along the way, and five queries read
them.

`Report.Balanced` says what the queries answer after a row of calls, in terms of the files the report
was made for and of the calls alone.  It holds after every row, refused calls included
(`afterCalls_balanced`).  What one call does is `Posted.respond`; the rest is read off the books.
-/

namespace TwigStyle

namespace Path

/-- Of the paths with the same components the first one, in order. -/
def firsts : List Path → List Path
  | [] => []
  | p :: ps => p :: (firsts ps).filter fun q => !p.same q

theorem any_firsts (ps : List Path) (q : Path) : (firsts ps).any (·.same q) = ps.any (·.same q) := by
  induction ps with
  | nil => rfl
  | cons p ps ih =>
    rw [firsts, List.any_cons, List.any_cons, ← ih]
    cases hp : p.same q with
    | true => rfl
    | false =>
      -- A path that `p` hides is the same as `p`, so it is not the same as `q`.
      simp only [Bool.false_or, List.any_filter]
      congr 1
      funext r
      cases hr : r.same q with
      | false => exact Bool.and_false _
      | true =>
        have hother : p.same r = false := by
          rw [Bool.eq_false_iff]
          intro hsame
          rw [same_trans hsame hr] at hp
          cases hp
        rw [hother]
        rfl

theorem firsts_concat (ps : List Path) (q : Path) :
    firsts (ps ++ [q]) = firsts ps ++ if ps.any (·.same q) then [] else [q] := by
  induction ps with
  | nil => rfl
  | cons p ps ih =>
    rw [List.cons_append, firsts, ih, firsts, List.filter_append, List.any_cons, List.cons_append]
    congr 2
    cases hp : p.same q <;> cases hps : ps.any (·.same q) <;> simp [hp]

theorem distinct_firsts (ps : List Path) : Distinct (firsts ps) := by
  induction ps with
  | nil => exact .nil
  | cons p ps ih =>
    apply List.pairwise_cons.2
    constructor
    · intro q hq
      simpa using (List.mem_filter.1 hq).2
    · exact ih.filter _

theorem mem_of_mem_firsts {ps : List Path} {q : Path} (h : q ∈ firsts ps) : q ∈ ps := by
  induction ps with
  | nil => exact h
  | cons p ps ih =>
    rcases List.mem_cons.1 h with rfl | h
    · exact List.mem_cons_self
    · exact List.mem_cons_of_mem p (ih (List.mem_filter.1 h).1)

end Path

/-- The totals of some violations, severity by severity. -/
def Totals.tally (vs : List Violation) : Totals where
  notices := vs.countP (·.severity == .notice)
  warnings := vs.countP (·.severity == .warning)
  errors := vs.countP (·.severity == .error)
  fatals := vs.countP (·.severity == .fatal)

theorem Totals.tally_cons (v : Violation) (vs : List Violation) :
    tally (v :: vs) = (tally vs).count v.severity := by
  cases hv : v.severity <;> simp [tally, count, hv]

theorem Totals.tally_perm {us vs : List Violation} (h : us.Perm vs) : tally us = tally vs := by
  simp only [tally, h.countP_eq]

namespace Report

/-! ### Calls -/

/-- What can be asked of a report that changes it. -/
inductive Call where
  /-- Record a violation. -/
  | violation (v : Violation)
  /-- Record that a file was changed. -/
  | fixed (file : Path)

namespace Call

/-- The file that a call names. -/
def file : Call → Path
  | violation v => v.file
  | fixed file => file

/-- The violation that is to be recorded. -/
def violation? : Call → Option Violation
  | violation v => some v
  | fixed _ => none

/-- The file that is to be recorded as changed. -/
def fixed? : Call → Option Path
  | violation _ => none
  | fixed file => some file

end Call

variable {r : Report} {files : List Path} {calls : List Call} {c : Call} {p : Path} {v : Violation}

/-- The answer to a call. -/
def call (r : Report) : Call → Except UnknownFile Report
  | .violation v => r.add v
  | .fixed file => r.addFixed file

/-- The report after a call, and the refusal if there is one; a refused call leaves the report as it
    is. -/
def respond (r : Report) (c : Call) : Report × Option UnknownFile :=
  match r.call c with
  | .ok r' => (r', none)
  | .error e => (r, some e)

/-- The report after some calls, one after the other. -/
def afterCalls (r : Report) (calls : List Call) : Report :=
  calls.foldl (fun r c => (r.respond c).1) r

/-- The calls that name a file of the set. -/
def accepted (files : List Path) (calls : List Call) : List Call :=
  calls.filter fun c => files.any (·.same c.file)

/-- The violations that were recorded for a file, in the order of the calls. -/
def recordedFor (files : List Path) (calls : List Call) (p : Path) : List Violation :=
  ((accepted files calls).filterMap (·.violation?)).filter (·.file.same p)

/-- The books of a report that was made for `files`, after `calls`. -/
structure Balanced (files : List Path) (calls : List Call) (r : Report) : Prop where
  /-- The set of files is the one the report was made for, in ascending order. -/
  covers : ∀ p, r.covers p = files.any (·.same p)
  ascending : r.paths.Pairwise fun p q => p.compare q = .lt
  /-- Each total is the number of the stored violations of its severity. -/
  totals : r.totals = Totals.tally (r.allViolations none)
  /-- The violations of a file are the accepted ones for it, in the order of the calls. -/
  known : ∀ p min, r.covers p = true →
    r.fileViolations p min = .ok ((recordedFor files calls p).filter (·.severity.atLeast min))
  unknown : ∀ p min, r.covers p = false → r.fileViolations p min = .error ⟨p⟩
  /-- All violations are those of the files, file by file. -/
  all : ∀ min, ∃ rows, r.paths.mapM (r.fileViolations · min) = .ok rows ∧
    r.allViolations min = rows.flatten
  hasAt : ∀ s, r.hasAt s = true ↔ r.allViolations (some s) ≠ []
  /-- The changed files are those of the accepted calls, each once, in the order of the first call. -/
  fixed : r.fixed = Path.firsts ((accepted files calls).filterMap (·.fixed?))
  fixed_distinct : Path.Distinct r.fixed
  fixed_covered : ∀ p ∈ r.fixed, r.covers p = true
  /-- A call that names a file of the set is answered, and no other one; that one changes nothing. -/
  answered : ∀ c, r.covers c.file = true → (r.respond c).2 = none
  refused : ∀ c, r.covers c.file = false → r.respond c = (r, some ⟨c.file⟩)

/-! ### One call -/

theorem respond_of_not_covers (h : r.covers c.file = false) : r.respond c = (r, some ⟨c.file⟩) := by
  cases c with
  | violation v =>
    have hrefused : r.add v = .error ⟨v.file⟩ := by
      rw [add, if_neg (by simpa [Call.file] using h)]
    simp only [respond, call, hrefused, Call.file]
  | fixed file =>
    have hrefused : r.addFixed file = .error ⟨file⟩ := by
      rw [addFixed, if_pos (by simpa [Call.file] using h)]
    simp only [respond, call, hrefused, Call.file]

theorem respond_violation (h : r.covers v.file = true) :
    r.respond (.violation v) =
      ({ r with files := appendTo v r.files, totals := r.totals.count v.severity }, none) := by
  simp only [respond, call, add, if_pos h]

theorem respond_fixed (h : r.covers p = true) :
    r.respond (.fixed p) =
      ({ r with fixed := r.fixed ++ if r.fixed.any (·.same p) then [] else [p] }, none) := by
  simp only [respond, call, addFixed, h, Bool.not_true, if_neg Bool.false_ne_true]
  cases r.fixed.any (·.same p) with
  | true => simp
  | false => rfl

theorem perm_appendTo {entries : List (Path × List Violation)}
    (h : (entries.any fun e => e.1.same v.file) = true) :
    ((appendTo v entries).flatMap (·.2)).Perm (v :: entries.flatMap (·.2)) := by
  induction entries with
  | nil => cases h
  | cons entry entries ih =>
    unfold appendTo
    split
    · rw [List.flatMap_cons, List.flatMap_cons, List.append_assoc, List.singleton_append]
      exact List.perm_middle
    · rename_i hother
      have hrest : (entries.any fun e => e.1.same v.file) = true := by
        simpa [Bool.eq_false_iff.2 hother] using h
      rw [List.flatMap_cons, List.flatMap_cons]
      exact ((ih hrest).append_left entry.2).trans List.perm_middle

/-! ### Rows of calls -/

/-- What a row of calls has left in a report. -/
structure Posted (files : List Path) (calls : List Call) (r : Report) : Prop where
  violations : (empty files).Extends r ((accepted files calls).filterMap (·.violation?))
  totals : r.totals = Totals.tally (r.files.flatMap (·.2))
  fixed : r.fixed = Path.firsts ((accepted files calls).filterMap (·.fixed?))

namespace Posted

theorem covers (h : Posted files calls r) (p : Path) : r.covers p = files.any (·.same p) := by
  rw [← covers_empty_eq, Bool.eq_iff_iff, covers_iff, covers_iff, h.violations.violations,
    Option.isSome_map]

theorem empty (files : List Path) : Posted files [] (Report.empty files) where
  violations := .refl _
  totals := by
    have hnil : (Report.empty files).files.flatMap (·.2) = [] :=
      List.flatMap_eq_nil_iff.2 fun _ he => eq_nil_of_mem_empty he
    rw [hnil]
    rfl
  fixed := rfl

theorem respond (h : Posted files calls r) (c : Call) :
    Posted files (calls ++ [c]) (r.respond c).1 := by
  cases hcovers : r.covers c.file with
  | false =>
    have haccepted : accepted files (calls ++ [c]) = accepted files calls := by
      rw [h.covers] at hcovers
      simp [accepted, hcovers]
    rw [respond_of_not_covers hcovers]
    exact ⟨by rw [haccepted]; exact h.violations, h.totals, by rw [haccepted]; exact h.fixed⟩
  | true =>
    have haccepted : accepted files (calls ++ [c]) = accepted files calls ++ [c] := by
      rw [h.covers] at hcovers
      simp [accepted, hcovers]
    cases c with
    | violation v =>
      have hv : r.covers v.file = true := hcovers
      have hadd : r.add v = .ok (r.respond (.violation v)).1 := by
        rw [respond_violation hv, add, if_pos hv]
      constructor
      · have hextends := h.violations.trans (extends_of_add hadd).1
        simpa [haccepted, Call.violation?] using hextends
      · rw [respond_violation hv]
        have htally := Totals.tally_perm (perm_appendTo hv)
        rw [Totals.tally_cons, ← h.totals] at htally
        exact htally.symm
      · rw [respond_violation hv, haccepted]
        simpa [Call.fixed?] using h.fixed
    | fixed p =>
      have hp : r.covers p = true := hcovers
      rw [respond_fixed hp]
      constructor
      · simpa [haccepted, Call.violation?] using h.violations.congr
      · exact h.totals
      · have hfixed : (accepted files (calls ++ [.fixed p])).filterMap (·.fixed?) =
            (accepted files calls).filterMap (·.fixed?) ++ [p] := by
          rw [haccepted, List.filterMap_append]
          rfl
        have hany : r.fixed.any (·.same p) =
            ((accepted files calls).filterMap (·.fixed?)).any (·.same p) := by
          rw [h.fixed, Path.any_firsts]
        rw [hfixed, Path.firsts_concat, ← h.fixed, ← hany]

theorem afterCalls {before : List Call} (h : Posted files before r) (calls : List Call) :
    Posted files (before ++ calls) (r.afterCalls calls) := by
  induction calls generalizing before r with
  | nil => rwa [List.append_nil]
  | cons c calls ih =>
    have hrest := ih (h.respond c)
    rwa [List.append_assoc, List.singleton_append] at hrest

/-! ### What the queries answer -/

theorem violationsOf? (h : Posted files calls r) (hp : r.covers p = true) :
    r.violationsOf? p = some (recordedFor files calls p) := by
  rw [h.covers, ← covers_empty_eq] at hp
  rw [h.violations.violations, violationsOf?_empty_of_covers hp]
  rfl

theorem sorted (h : Posted files calls r) : r.Sorted := by
  rw [Sorted, h.violations.paths]
  exact sorted_empty files

end Posted

theorem fileViolations_of_covers (h : r.covers p = true) (min : Option Severity) :
    r.fileViolations p min =
      .ok (((r.violationsOf? p).getD []).filter (·.severity.atLeast min)) := by
  obtain ⟨vs, hvs⟩ := Option.isSome_iff_exists.1 (covers_iff.1 h)
  rw [fileViolations, hvs]
  rfl

theorem fileViolations_of_not_covers (h : r.covers p = false) (min : Option Severity) :
    r.fileViolations p min = .error ⟨p⟩ := by
  have hnone : r.violationsOf? p = none := by
    rw [← Option.not_isSome_iff_eq_none, ← covers_iff, h]
    exact Bool.false_ne_true
  rw [fileViolations, hnone]

theorem covers_of_mem_paths (h : p ∈ r.paths) : r.covers p = true := by
  obtain ⟨e, he, rfl⟩ := List.mem_map.1 h
  exact List.any_eq_true.2 ⟨e, he, Path.same_refl e.1⟩

theorem exists_rows (h : r.Sorted) (min : Option Severity) :
    ∃ rows, r.paths.mapM (r.fileViolations · min) = .ok rows ∧
      r.allViolations min = rows.flatten := by
  let row (p : Path) : List Violation :=
    ((r.violationsOf? p).getD []).filter (·.severity.atLeast min)
  have hmapM : ∀ ps : List Path, (∀ p ∈ ps, r.covers p = true) →
      ps.mapM (r.fileViolations · min) = .ok (ps.map row) := by
    intro ps hps
    induction ps with
    | nil => rfl
    | cons p ps ih =>
      rw [List.mapM_cons, fileViolations_of_covers (hps p List.mem_cons_self),
        ih fun q hq => hps q (List.mem_cons_of_mem p hq)]
      rfl
  refine ⟨r.paths.map row, hmapM r.paths fun p hp => covers_of_mem_paths hp, ?_⟩
  rw [allViolations, files_eq h, List.flatMap_map, List.filter_flatMap]
  exact List.flatMap_def

theorem hasAt_iff (r : Report) (s : Severity) :
    r.hasAt s = true ↔ r.allViolations (some s) ≠ [] := by
  rw [hasAt, allViolations, Ne, List.filter_eq_nil_iff, List.any_eq_true]
  simp only [List.mem_flatMap, List.any_eq_true]
  constructor
  · rintro ⟨e, he, v, hv, hsevere⟩ hnone
    exact hnone v ⟨e, he, hv⟩ hsevere
  · intro hsome
    apply Classical.byContradiction
    intro hnone
    apply hsome
    rintro v ⟨e, he, hv⟩ hsevere
    exact hnone ⟨e, he, v, hv, hsevere⟩

/-- **The books of a report balance.** After every row of calls, refused ones included, the totals,
    the violations of each file and the changed files are what the calls say. -/
theorem afterCalls_balanced (files : List Path) (calls : List Call) :
    Balanced files calls ((empty files).afterCalls calls) := by
  have h : Posted files calls ((empty files).afterCalls calls) := (Posted.empty files).afterCalls calls
  generalize (empty files).afterCalls calls = r at h
  constructor
  · exact h.covers
  · exact h.sorted
  · have hall : r.allViolations none = r.files.flatMap (·.2) := List.filter_eq_self.2 fun _ _ => rfl
    rw [h.totals, hall]
  · intro p min hp
    rw [fileViolations_of_covers hp, h.violationsOf? hp]
    rfl
  · intro p min hp
    exact fileViolations_of_not_covers hp min
  · exact exists_rows h.sorted
  · exact r.hasAt_iff
  · exact h.fixed
  · rw [h.fixed]
    exact Path.distinct_firsts _
  · intro p hp
    rw [h.fixed] at hp
    obtain ⟨c, hc, hfixed⟩ := List.mem_filterMap.1 (Path.mem_of_mem_firsts hp)
    cases c with
    | violation v => cases hfixed
    | fixed file =>
      cases hfixed
      rw [h.covers]
      exact (List.mem_filter.1 hc).2
  · intro c hc
    cases c with
    | violation v => exact congrArg Prod.snd (respond_violation hc)
    | fixed file => exact congrArg Prod.snd (respond_fixed hc)
  · intro c hc
    exact respond_of_not_covers hc

end Report

end TwigStyle
