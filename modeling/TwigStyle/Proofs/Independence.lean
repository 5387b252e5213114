import TwigStyle.Proofs.Overwritten
import TwigStyle.Proofs.Recorded
import TwigStyle.Proofs.Transparency

/-!
# Files do not concern each other

A run reads all its files, processes what it could read one after the other on one disk, and puts all
that it finds into one report.  What it says about a file is nevertheless what a run over that file
alone says, and so is what it leaves on the disk.

* One file: what fixing makes of its content is decided by the content (`newText`), and a file that could
  be read can be written, so what becomes of it is known before the disk is looked at (`outcomeOf`).

* All files: processing a file changes what that file holds and nothing else (`settle`), hence files that
  are apart are processed as if each of them stood at the beginning (`processAll_eq`), and in any order
  (`foldl_settle_perm`).

* The report: every violation is one of its own file, so it can be taken apart again (`Accounted`).
-/

namespace TwigStyle

namespace Linter

variable {l : Linter} {fix : Bool} {d : Disk} {p q : Path} {content new : List Char} {s : Progress}
  {files files' : List Path} {v : Violation}

/-! ### One file -/

/-- What fixing has to say about a content, if it is wanted. -/
def change (l : Linter) (fix : Bool) (path : Path) (content : List Char) :
    Except Violation (Option (List Char)) :=
  if fix then changeOf path content (l.fixContent path content []).1 else .ok none

/-- The content that takes the place of a content, if there is one. -/
def newText (l : Linter) (fix : Bool) (path : Path) (content : List Char) : Option (List Char) :=
  (l.change fix path content).toOption.join

theorem fix_of_newText (h : l.newText fix p content = some new) : fix = true := by
  cases fix with
  | false => cases h
  | true => rfl

theorem newText_ne (h : l.newText fix p content = some new) : new ≠ content := by
  unfold newText change at h
  cases fix with
  | false => cases h
  | true =>
    rw [if_pos rfl] at h
    unfold changeOf at h
    split at h
    · split at h
      · cases h
      · cases h
        assumption
    · cases h
    · cases h

/-- What becomes of a file that can be written. -/
def outcomeOf (l : Linter) (fix : Bool) (path : Path) (content : List Char) : Outcome where
  path := path
  content := (l.newText fix path content).getD content
  violations :=
    (match l.change fix path content with
      | .error v => [v]
      | .ok _ => []) ++ l.violationsIn path ((l.newText fix path content).getD content)
  fixed := (l.newText fix path content).isSome

/-- The disk after a file was processed. -/
def settle (l : Linter) (fix : Bool) (d : Disk) (p : Path) : Disk :=
  match d.read p with
  | .error _ => d
  | .ok content => ((l.newText fix p content).bind fun new => (d.write p new).toOption).getD d

theorem settle_of_none
    (h : ∀ content, d.read p = .ok content → l.newText fix p content = none) :
    l.settle fix d p = d := by
  unfold settle
  split
  · rfl
  · rename_i content hread
    rw [h content hread]
    rfl

theorem write_settle (hread : d.read p = .ok content) (hnew : l.newText fix p content = some new) :
    d.write p new = .ok (l.settle fix d p) := by
  obtain ⟨d', hwrite⟩ := Disk.write_of_read new hread
  simp only [settle, hread, hnew, Option.bind_some, hwrite]
  rfl

theorem settle_cases (l : Linter) (fix : Bool) (d : Disk) (p : Path) :
    (∀ content, d.read p = .ok content → l.newText fix p content = none) ∨
      ∃ content new, d.read p = .ok content ∧ l.newText fix p content = some new := by
  cases hread : d.read p with
  | error e => exact .inl nofun
  | ok content =>
    cases hnew : l.newText fix p content with
    | none =>
      refine .inl ?_
      rintro content' ⟨⟩
      exact hnew
    | some new => exact .inr ⟨content, new, rfl, hnew⟩

theorem processFile_eq (hrs : ∀ r ∈ l.ruleset.rules, r.isBuiltIn = true) (fix : Bool)
    (hread : s.disk.read p = .ok content) :
    (l.processFile fix p content s).1 = l.outcomeOf fix p content ∧
      (l.processFile fix p content s).2.disk = l.settle fix s.disk p := by
  have hfinish : (l.processFile fix p content s).1 =
        (l.finishFile p content (l.change fix p content) s.disk).1 ∧
      (l.processFile fix p content s).2.disk =
        (l.finishFile p content (l.change fix p content) s.disk).2 := by
    cases fix with
    | false => exact ⟨rfl, rfl⟩
    | true => simp [processFile, change, fixContent_congr hrs s.calls []]
  rw [hfinish.1, hfinish.2]
  cases hchange : l.change fix p content with
  | error v =>
    have hnone : l.newText fix p content = none := by rw [newText, hchange]; rfl
    simp [finishFile, outcomeOf, settle, hread, hchange, hnone]
  | ok new =>
    cases new with
    | none =>
      have hnone : l.newText fix p content = none := by rw [newText, hchange]; rfl
      simp [finishFile, outcomeOf, settle, hread, hchange, hnone]
    | some new =>
      have hnew : l.newText fix p content = some new := by rw [newText, hchange]; rfl
      simp [finishFile, outcomeOf, write_settle hread hnew, hchange, hnew]

/-! ### One file after the other -/

/-- Processing one of the files does not touch the other: nothing is written, or they are at different
    locations. -/
def Separate (fix : Bool) (d : Disk) (p q : Path) : Prop := fix = true → d.Apart p q

theorem Separate.symm (h : Separate fix d p q) : Separate fix d q p := fun hfix => (h hfix).symm

theorem locate_settle (l : Linter) (fix : Bool) (d : Disk) (p q : Path) :
    (l.settle fix d p).locate q = d.locate q := by
  rcases l.settle_cases fix d p with hnone | ⟨content, new, hread, hnew⟩
  · rw [settle_of_none hnone]
  · exact Disk.locate_write_of_read (write_settle hread hnew) hread q

theorem separate_settle (l : Linter) (fix : Bool) (d : Disk) (p : Path) :
    Separate fix (l.settle fix d p) = Separate fix d := by
  funext q r
  simp only [Separate, Disk.Apart, locate_settle]

theorem dataAt_settle_of_separate (h : Separate fix d p q) :
    (l.settle fix d p).dataAt q = d.dataAt q := by
  rcases l.settle_cases fix d p with hnone | ⟨content, new, hread, hnew⟩
  · rw [settle_of_none hnone]
  · exact Disk.dataAt_write_of_apart (write_settle hread hnew) hread (h (fix_of_newText hnew))

theorem read_settle_of_separate (h : Separate fix d p q) : (l.settle fix d p).read q = d.read q :=
  Disk.read_congr (dataAt_settle_of_separate h)

theorem dataAt_settle_congr {d' : Disk} (h : d.dataAt p = d'.dataAt p) :
    (l.settle fix d p).dataAt p = (l.settle fix d' p).dataAt p := by
  have hreads := Disk.read_congr h
  rcases l.settle_cases fix d p with hnone | ⟨content, new, hread, hnew⟩
  · rw [settle_of_none hnone]
    rw [hreads] at hnone
    rw [settle_of_none hnone, h]
  · have hnew' := write_settle (hreads.symm.trans hread) hnew
    rw [Disk.dataAt_of_read (Disk.read_write (write_settle hread hnew)),
      Disk.dataAt_of_read (Disk.read_write hnew')]

theorem settle_comm (h : Separate fix d p q) :
    l.settle fix (l.settle fix d p) q = l.settle fix (l.settle fix d q) p := by
  have hp : (l.settle fix d q).read p = d.read p := read_settle_of_separate h.symm
  have hq : (l.settle fix d p).read q = d.read q := read_settle_of_separate h
  rcases l.settle_cases fix d p with hnone | ⟨content, new, hread, hnew⟩
  · rw [settle_of_none hnone]
    rw [← hp] at hnone
    exact (settle_of_none hnone).symm
  · rcases l.settle_cases fix d q with hnone | ⟨content', new', hread', hnew'⟩
    · rw [settle_of_none (d := d) hnone]
      rw [← hq] at hnone
      exact settle_of_none hnone
    · have hcomm := Disk.write_comm hread hread' (h (fix_of_newText hnew))
        (write_settle hread hnew) (write_settle hread' hnew')
      rw [write_settle (hq.trans hread') hnew', write_settle (hp.trans hread) hnew] at hcomm
      exact Except.ok.inj hcomm

theorem dataAt_foldl_settle_of_separate (h : ∀ q ∈ files, Separate fix d q p) :
    (files.foldl (l.settle fix) d).dataAt p = d.dataAt p := by
  induction files generalizing d with
  | nil => rfl
  | cons q files ih =>
    have hrest : ∀ q' ∈ files, Separate fix (l.settle fix d q) q' p := by
      rw [separate_settle]
      exact fun q' hq' => h q' (List.mem_cons_of_mem q hq')
    rw [List.foldl_cons, ih hrest, dataAt_settle_of_separate (h q List.mem_cons_self)]

theorem dataAt_foldl_settle (h : files.Pairwise (Separate fix d)) (hp : p ∈ files) :
    (files.foldl (l.settle fix) d).dataAt p = (l.settle fix d p).dataAt p := by
  induction files generalizing d with
  | nil => cases hp
  | cons q files ih =>
    obtain ⟨hhead, htail⟩ := List.pairwise_cons.1 h
    rw [← separate_settle l fix d q] at htail
    rcases List.mem_cons.1 hp with rfl | hp
    · rw [List.foldl_cons]
      refine dataAt_foldl_settle_of_separate ?_
      rw [separate_settle]
      exact fun q' hq' => (hhead q' hq').symm
    · rw [List.foldl_cons, ih htail hp]
      exact dataAt_settle_congr (dataAt_settle_of_separate (hhead p hp))

/-- In which order files are processed does not show on the disk. -/
theorem foldl_settle_perm (hperm : files.Perm files') (h : files.Pairwise (Separate fix d)) :
    files.foldl (l.settle fix) d = files'.foldl (l.settle fix) d := by
  -- Two files commute on disks where they are apart, not on all, so that `List.Perm.foldl_eq'` does not
  -- apply; but being apart survives every step.
  induction hperm generalizing d with
  | nil => rfl
  | cons p _ ih =>
    rw [List.pairwise_cons, ← separate_settle l fix d p] at h
    exact ih h.2
  | swap p q files =>
    have hapart : Separate fix d q p := (List.pairwise_cons.1 h).1 p List.mem_cons_self
    rw [List.foldl_cons, List.foldl_cons, List.foldl_cons, List.foldl_cons, settle_comm hapart]
  | trans hperm _ ih₁ ih₂ =>
    exact (ih₁ h).trans (ih₂ ((hperm.pairwise_iff Separate.symm).1 h))

/-! ### What a run finds -/

/-- The violation of a file that cannot be read. -/
def ownFailures (d : Disk) (p : Path) : List Violation :=
  match d.read p with
  | .error e => [Violation.fatal (readMessage e) p none]
  | .ok _ => []

/-- The outcome of a file that can be read. -/
def ownOutcomes (l : Linter) (fix : Bool) (d : Disk) (p : Path) : List Outcome :=
  match d.read p with
  | .error _ => []
  | .ok content => [l.outcomeOf fix p content]

theorem readFiles_failures (d : Disk) (files : List Path) :
    (readFiles d none files).2 = files.flatMap (ownFailures d) := by
  induction files with
  | nil => rfl
  | cons p files ih =>
    rw [List.flatMap_cons, ← ih, ownFailures]
    cases hread : d.read p with
    | error e => rw [readFiles_of_error hread]; rfl
    | ok content => rw [readFiles_of_isPending hread rfl]; rfl

/-- Files that are apart are processed as if each of them stood at the beginning. -/
theorem processAll_eq (hrs : ∀ r ∈ l.ruleset.rules, r.isBuiltIn = true) (fix : Bool)
    (hapart : files.Pairwise (Separate fix s.disk)) (hread : ∀ p ∈ files, s.disk.read p = d.read p) :
    (l.processAll fix (readFiles d none files).1 s).1 = files.flatMap (l.ownOutcomes fix d) ∧
      (l.processAll fix (readFiles d none files).1 s).2.disk =
        files.foldl (l.settle fix) s.disk := by
  -- The contents are those of `d`, read before anything was written.  On the way the disk changes, but
  -- not what the files to come read.
  induction files generalizing s with
  | nil => exact ⟨rfl, rfl⟩
  | cons p files ih =>
    obtain ⟨hhead, htail⟩ := List.pairwise_cons.1 hapart
    have hrest : ∀ q ∈ files, s.disk.read q = d.read q :=
      fun q hq => hread q (List.mem_cons_of_mem p hq)
    have hp := hread p List.mem_cons_self
    cases hcontent : d.read p with
    | error e =>
      rw [hcontent] at hp
      have hkept : l.settle fix s.disk p = s.disk := settle_of_none (by rw [hp]; exact nofun)
      rw [readFiles_of_error hcontent, List.flatMap_cons, List.foldl_cons, ownOutcomes, hcontent,
        hkept]
      exact ih htail hrest
    | ok content =>
      rw [hcontent] at hp
      obtain ⟨houtcome, hdisk⟩ := processFile_eq hrs fix hp
      have htail' : files.Pairwise (Separate fix (l.processFile fix p content s).2.disk) := by
        rw [hdisk, separate_settle]
        exact htail
      have hrest' : ∀ q ∈ files, (l.processFile fix p content s).2.disk.read q = d.read q := by
        intro q hq
        rw [hdisk, read_settle_of_separate (hhead q hq), hrest q hq]
      obtain ⟨houtcomes, hdisks⟩ := ih htail' hrest'
      have hown : l.ownOutcomes fix d p = [(l.processFile fix p content s).1] := by
        rw [ownOutcomes, hcontent, houtcome]
      rw [readFiles_of_isPending hcontent rfl, List.flatMap_cons, List.foldl_cons, hown, ← hdisk,
        ← hdisks, ← houtcomes]
      exact ⟨rfl, rfl⟩

/-- The violations of a file that a run finds. -/
def ownViolations (l : Linter) (fix : Bool) (d : Disk) (p : Path) : List Violation :=
  ownFailures d p ++ (l.ownOutcomes fix d p).flatMap Outcome.violations

/-- The file itself, if a run changes it. -/
def ownFixed (l : Linter) (fix : Bool) (d : Disk) (p : Path) : List Path :=
  ((l.ownOutcomes fix d p).filter Outcome.fixed).map Outcome.path

theorem path_ownOutcomes_sublist (l : Linter) (fix : Bool) (d : Disk) (files : List Path) :
    ((files.flatMap (l.ownOutcomes fix d)).map Outcome.path).Sublist files := by
  induction files with
  | nil => exact .slnil
  | cons p files ih =>
    rw [List.flatMap_cons, List.map_append, ownOutcomes]
    cases d.read p with
    | error e => exact .cons p ih
    | ok content => exact .cons_cons p ih

theorem file_of_change (h : l.change fix p content = .error v) : v.file = p := by
  cases fix with
  | false => cases h
  | true => exact file_of_changeOf h

theorem file_of_mem_ownFailures (h : v ∈ ownFailures d p) : v.file = p := by
  unfold ownFailures at h
  split at h
  · rw [List.mem_singleton.1 h]
    rfl
  · cases h

theorem file_of_mem_ownOutcomes (h : v ∈ (l.ownOutcomes fix d p).flatMap Outcome.violations) :
    v.file = p := by
  unfold ownOutcomes at h
  split at h
  · cases h
  · rename_i content hread
    rw [List.flatMap_singleton, outcomeOf] at h
    rcases List.mem_append.1 h with h | h
    · split at h
      · rename_i v' hv'
        rw [List.mem_singleton.1 h]
        exact file_of_change hv'
      · cases h
    · exact file_of_mem_violationsIn h

theorem ownFixed_eq (l : Linter) (fix : Bool) (d : Disk) (p : Path) :
    l.ownFixed fix d p = [] ∧ (l.settle fix d p).dataAt p = d.dataAt p ∨
      l.ownFixed fix d p = [p] ∧ (l.settle fix d p).dataAt p ≠ d.dataAt p := by
  rcases l.settle_cases fix d p with hnone | ⟨content, new, hread, hnew⟩
  · refine .inl ⟨?_, by rw [settle_of_none hnone]⟩
    rw [ownFixed, ownOutcomes]
    split
    · rfl
    · rename_i content hread
      simp [outcomeOf, hnone content hread]
  · refine .inr ⟨by simp [ownFixed, ownOutcomes, hread, outcomeOf, hnew], ?_⟩
    intro hsame
    have hreads := Disk.read_congr hsame
    rw [Disk.read_write (write_settle hread hnew), hread] at hreads
    exact newText_ne hnew (Except.ok.inj hreads)

/-! ### What is reported -/

theorem filter_flatMap_own {f : Path → List Violation} (hf : ∀ q, ∀ v ∈ f q, v.file = q)
    (h : Path.Distinct files) (hp : p ∈ files) :
    ((files.flatMap f).filter fun v => v.file.same p) = f p := by
  have hsame : ∀ q, q.same p = true → ((f q).filter fun v => v.file.same p) = f q := by
    intro q hq
    refine List.filter_eq_self.2 fun v hv => ?_
    rw [hf q v hv]
    exact hq
  have hother : ∀ q, q.same p = false → ((f q).filter fun v => v.file.same p) = [] := by
    intro q hq
    refine List.filter_eq_nil_iff.2 fun v hv => ?_
    rw [hf q v hv, hq]
    exact Bool.false_ne_true
  induction files with
  | nil => cases hp
  | cons q files ih =>
    obtain ⟨hhead, htail⟩ := List.pairwise_cons.1 h
    rw [List.flatMap_cons, List.filter_append]
    rcases List.mem_cons.1 hp with rfl | hp
    · have hrest : ((files.flatMap f).filter fun v => v.file.same p) = [] := by
        rw [List.filter_flatMap, List.flatMap_eq_nil_iff]
        exact fun q hq => hother q (Path.not_same_symm (hhead q hq))
      rw [hsame p (Path.same_refl p), hrest, List.append_nil]
    · rw [hother q (hhead p hp), ih htail hp, List.nil_append]

theorem totals_flatMap (f g : Path → List Violation) (files : List Path) :
    Totals.ofViolations (files.flatMap f ++ files.flatMap g) =
      .sum (files.map fun p => .ofViolations (f p ++ g p)) := by
  induction files with
  | nil => rfl
  | cons p files ih =>
    rw [List.map_cons, Totals.sum_cons, ← ih]
    simp only [List.flatMap_cons, Totals.ofViolations_append, Totals.plus_assoc,
      Totals.plus_left_comm (Totals.ofViolations (g p))]

/-- Outcomes of distinct files add their violations, and those that were fixed to the list of such
    files. -/
theorem addOutcomes_extends {outcomes : List Outcome} {r r' : Report}
    (h : addOutcomes r outcomes = .ok r')
    (hpaths : Path.Distinct (r.fixed ++ outcomes.map Outcome.path)) :
    r.Extends r' (outcomes.flatMap Outcome.violations) ∧
      r'.fixed = r.fixed ++ (outcomes.filter Outcome.fixed).map Outcome.path := by
  induction outcomes generalizing r with
  | nil =>
    cases h
    exact ⟨.refl _, (List.append_nil _).symm⟩
  | cons o outcomes ih =>
    unfold addOutcomes at h
    split at h
    · cases h
    · rename_i r₂ hadd
      unfold addOutcome at hadd
      split at hadd
      · cases hadd
      · rename_i r₁ hviolations
        obtain ⟨hextends, hfixed₁⟩ := Report.extends_of_addAll hviolations
        rw [List.map_cons] at hpaths
        split at hadd
        · rename_i hfixed
          obtain ⟨-, -, hnew⟩ := List.pairwise_append.1 hpaths
          -- No earlier file has the same components, so the file is not in the list yet.
          have hadded : r₂ = { r₁ with fixed := r₁.fixed ++ [o.path] } := by
            have hfresh : (r₁.fixed.any fun p => p.same o.path) = false := by
              rw [hfixed₁, List.any_eq_false]
              exact fun p hp => by rw [hnew p hp o.path List.mem_cons_self]; exact Bool.false_ne_true
            unfold Report.addFixed at hadd
            rw [hfresh] at hadd
            split at hadd
            · cases hadd
            · exact (Except.ok.inj hadd).symm
          subst hadded
          rw [← List.singleton_append, ← List.append_assoc, ← hfixed₁] at hpaths
          obtain ⟨hrest, hfixed'⟩ := ih h hpaths
          refine ⟨hextends.congr.trans hrest, ?_⟩
          rw [hfixed', hfixed₁, List.filter_cons_of_pos hfixed, List.map_cons, List.append_assoc]
          rfl
        · rename_i hfixed
          obtain rfl := Except.ok.inj hadd
          rw [← hfixed₁] at hpaths
          have hfewer : Path.Distinct (r₁.fixed ++ outcomes.map Outcome.path) :=
            hpaths.sublist ((List.sublist_cons_self _ _).append_left _)
          obtain ⟨hrest, hfixed'⟩ := ih h hfewer
          refine ⟨hextends.trans hrest, ?_⟩
          rw [hfixed', hfixed₁, List.filter_cons_of_neg hfixed]

/-- What a run over some files shows: on the disk one file after the other has been processed, and the
    report holds for each file its own findings. -/
structure Accounted (l : Linter) (d : Disk) (files : List Path) (fix : Bool) (result : Result) :
    Prop where
  disk : result.disk = files.foldl (l.settle fix) d
  paths : result.report.paths = (Report.empty files).paths
  violations : ∀ p ∈ files, result.report.violationsOf? p = some (l.ownViolations fix d p)
  totals : result.report.totals =
    .sum (files.map fun p => .ofViolations (l.ownViolations fix d p))
  fixed : result.report.fixed = files.flatMap (l.ownFixed fix d)

theorem run_accounted (hrs : ∀ r ∈ l.ruleset.rules, r.isBuiltIn = true)
    (hpaths : Path.Distinct files) (hseparate : files.Pairwise (Separate fix d)) (calls : CallCounts) :
    ∃ result, l.run d files fix none calls = .ok result ∧ l.Accounted d files fix result := by
  obtain ⟨unread, report, hunread, hreport⟩ := l.run_ok d files fix none calls
  let start : Progress := { disk := d, calls }
  obtain ⟨houtcomes, hdisk⟩ := processAll_eq (s := start) (d := d) hrs fix hseparate fun _ _ => rfl
  refine ⟨_, run_eq_ok hunread hreport, ?_⟩
  obtain ⟨hfailures, hnone⟩ := Report.extends_of_addAll hunread
  rw [houtcomes] at hreport
  have hdistinct : Path.Distinct
      (unread.fixed ++ (files.flatMap (l.ownOutcomes fix d)).map Outcome.path) := by
    rw [hnone]
    exact hpaths.sublist (l.path_ownOutcomes_sublist fix d files)
  obtain ⟨hextends, hfixed⟩ := addOutcomes_extends hreport hdistinct
  have hall := hfailures.trans hextends
  rw [readFiles_failures, List.flatMap_assoc] at hall
  constructor
  · exact hdisk
  · exact hall.paths
  · intro p hp
    rw [hall.violations, Report.violationsOf?_empty hp, List.filter_append,
      filter_flatMap_own (fun q v => file_of_mem_ownFailures) hpaths hp,
      filter_flatMap_own (fun q v => file_of_mem_ownOutcomes) hpaths hp]
    rfl
  · rw [hall.totals, totals_flatMap]
    exact Totals.zero_plus _
  · rw [hfixed, hnone, List.filter_flatMap, List.map_flatMap]
    rfl

/-- The order of the files shows nowhere but in the list of those that were fixed. -/
theorem Accounted.perm {whole other : Result} (h : l.Accounted d files fix whole)
    (h' : l.Accounted d files' fix other) (hperm : files'.Perm files)
    (hpaths : Path.Distinct files) (hseparate : files.Pairwise (Separate fix d)) :
    other.report.files = whole.report.files ∧ other.report.totals = whole.report.totals ∧
      other.disk = whole.disk := by
  refine ⟨?_, ?_, ?_⟩
  · have hempty : Report.empty files = Report.empty files' := Report.empty_perm hperm.symm hpaths
    have hsame : other.report.paths = whole.report.paths := by rw [h.paths, h'.paths, hempty]
    have hsorted : whole.report.Sorted := by
      rw [Report.Sorted, h.paths]
      exact Report.sorted_empty files
    have hsorted' : other.report.Sorted := by
      rw [Report.Sorted, hsame]
      exact hsorted
    rw [Report.files_eq hsorted, Report.files_eq hsorted', hsame]
    refine List.map_congr_left fun p hp => ?_
    rw [h.paths] at hp
    have hmem := Report.mem_paths_empty hp
    rw [h.violations p hmem, h'.violations p (hperm.mem_iff.2 hmem)]
  · rw [h.totals, h'.totals]
    exact Totals.sum_perm (hperm.map _)
  · rw [h.disk, h'.disk]
    exact (foldl_settle_perm hperm.symm hseparate).symm

/-- **Files are independent.** A run over distinct files, whatever they hold and whether they can be read
    or not, gives a report with the violations of each file, and leaves each file with the content, that
    a run over this file alone gives; the totals add up, the files that were fixed are listed in the
    order of the run, and nothing else depends on that order. -/
theorem run_independent (l : Linter) (d : Disk) (files : List Path) (fix : Bool) (calls : CallCounts)
    (hrs : ∀ r ∈ l.ruleset.rules, r.isBuiltIn = true) (hpaths : Path.Distinct files)
    (hplaces : fix = true → files.Pairwise d.Apart) :
    ∃ whole, l.run d files fix none calls = .ok whole ∧ ∃ alone : Path → Result,
      (∀ p ∈ files, l.run d [p] fix none calls = .ok (alone p) ∧
        (∃ vs, whole.report.violationsOf? p = some vs ∧ (alone p).report.violationsOf? p = some vs) ∧
        whole.disk.dataAt p = (alone p).disk.dataAt p ∧
        ((alone p).report.fixed = [] ∧ (alone p).disk.dataAt p = d.dataAt p ∨
          (alone p).report.fixed = [p] ∧ (alone p).disk.dataAt p ≠ d.dataAt p)) ∧
      whole.report.totals = .sum (files.map fun p => (alone p).report.totals) ∧
      whole.report.fixed = files.flatMap (fun p => (alone p).report.fixed) ∧
      ∀ files', files'.Perm files → ∃ other, l.run d files' fix none calls = .ok other ∧
        other.report.files = whole.report.files ∧ other.report.totals = whole.report.totals ∧
        other.disk = whole.disk ∧
        other.report.fixed = files'.flatMap fun p => (alone p).report.fixed := by
  have hseparate : files.Pairwise (Separate fix d) := by
    cases fix with
    | false => exact hpaths.imp fun _ => nofun
    | true => exact (hplaces rfl).imp fun h _ => h
  obtain ⟨whole, hwhole, haccounted⟩ := run_accounted hrs hpaths hseparate calls
  have hsingle : ∀ p, ∃ result, l.run d [p] fix none calls = .ok result ∧
      l.Accounted d [p] fix result :=
    fun p => run_accounted hrs (List.pairwise_singleton _ p) (List.pairwise_singleton _ p) calls
  let alone (p : Path) : Result := (hsingle p).choose
  have halone : ∀ p, l.Accounted d [p] fix (alone p) := fun p => (hsingle p).choose_spec.2
  have hdisk : ∀ p, (alone p).disk = l.settle fix d p := fun p => (halone p).disk
  have htotals : ∀ p, (alone p).report.totals = .ofViolations (l.ownViolations fix d p) :=
    fun p => (halone p).totals
  have hfixed : ∀ p, (alone p).report.fixed = l.ownFixed fix d p :=
    fun p => (halone p).fixed.trans (List.flatMap_singleton _ p)
  refine ⟨whole, hwhole, alone, ?_, ?_, ?_, ?_⟩
  · intro p hp
    refine ⟨(hsingle p).choose_spec.1, ⟨_, haccounted.violations p hp,
      (halone p).violations p (List.mem_singleton_self p)⟩, ?_, ?_⟩
    · rw [haccounted.disk, dataAt_foldl_settle hseparate hp, hdisk]
    · rw [hfixed, hdisk]
      exact l.ownFixed_eq fix d p
  · rw [haccounted.totals, funext htotals]
  · rw [haccounted.fixed, funext hfixed]
  · intro files' hperm
    have hpaths' : Path.Distinct files' := (hperm.pairwise_iff Path.not_same_symm).2 hpaths
    have hseparate' : files'.Pairwise (Separate fix d) := (hperm.pairwise_iff Separate.symm).2 hseparate
    obtain ⟨other, hother, haccounted'⟩ := run_accounted hrs hpaths' hseparate' calls
    obtain ⟨hfiles, htotals', hdisk'⟩ := haccounted.perm haccounted' hperm hpaths hseparate
    exact ⟨other, hother, hfiles, htotals', hdisk', by rw [haccounted'.fixed, funext hfixed]⟩

/-- A variable to be fixed, a list on which fixing gives up, bytes that are no text, and a file that is
    missing. -/
theorem run_independent_mixed :
    let l : Linter := ⟨⟨"/"⟩, ⟨Standard.full.rules⟩, [], [], {}, OperatorTable.default⟩
    let d : Disk :=
      ⟨[("a.twig", .file (.text "\x7b\x7ba\x7d\x7d\n".toList)),
        ("b.twig", .file (.text "\x7b\x7b [1,] \x7d\x7d\n".toList)),
        ("c.twig", .file (.binary [255]))], ⟨"/"⟩⟩
    let files : List Path := [⟨"/a.twig"⟩, ⟨"/b.twig"⟩, ⟨"/c.twig"⟩, ⟨"/d.twig"⟩]
    ∃ whole other, l.run d files true none [] = .ok whole ∧
      l.run d files.reverse true none [] = .ok other ∧
      other.report.files = whole.report.files ∧ other.disk = whole.disk ∧
      ∃ alone, l.run d [⟨"/b.twig"⟩] true none [] = .ok alone ∧
        whole.report.violationsOf? ⟨"/b.twig"⟩ = alone.report.violationsOf? ⟨"/b.twig"⟩ ∧
        whole.disk.dataAt ⟨"/b.twig"⟩ = alone.disk.dataAt ⟨"/b.twig"⟩ := by
  intro l d files
  have hbuiltIn : ∀ r ∈ l.ruleset.rules, r.isBuiltIn = true := by decide
  have hpaths : Path.Distinct files := by
    unfold Path.Distinct
    decide +kernel
  have hplaces : files.Pairwise fun p q => (d.locate p).toOption ≠ (d.locate q).toOption := by
    decide +kernel
  obtain ⟨whole, hwhole, alone, halone, -, -, hperm⟩ := run_independent l d files true [] hbuiltIn
    hpaths fun _ => hplaces.imp fun hne place hp hq => hne (by rw [hp, hq])
  obtain ⟨other, hother, hfiles, -, hdisk, -⟩ := hperm files.reverse (List.reverse_perm files)
  obtain ⟨hrun, ⟨vs, hvs, hvs'⟩, hdata, -⟩ :=
    halone ⟨"/b.twig"⟩ (List.mem_cons_of_mem _ List.mem_cons_self)
  exact ⟨whole, other, hwhole, hother, hfiles, hdisk, alone ⟨"/b.twig"⟩, hrun, hvs.trans hvs'.symm,
    hdata⟩

end Linter

end TwigStyle
