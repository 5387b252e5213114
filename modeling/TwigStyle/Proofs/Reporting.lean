import TwigStyle.Linter.Run
import TwigStyle.Proofs.Clean

/-!
# Runs always report

A report refuses violations of files that it does not cover.  A run never meets that refusal: its
report covers the files of the run, of every spelling (`covers_empty`), and all that a run records is
about one of them.  What is recorded does not change which files are covered, so one file after the
other can be added (`addOutcomes_ok`).
-/

namespace TwigStyle

namespace Path

/-! ### The order tells components apart -/

theorem compareText_eq_iff {s t : List Char} : compareText s t = .eq ↔ s = t := by
  induction s generalizing t with
  | nil => cases t <;> simp [compareText]
  | cons a s ih =>
    cases t with
    | nil => simp [compareText]
    | cons b t =>
      simp only [compareText, Ordering.then_eq_eq, ih, List.cons.injEq, Nat.compare_eq_eq]
      exact and_congr_left fun _ => ⟨fun h => Char.toNat_inj.1 h, congrArg _⟩

theorem Component.compare_eq_iff {a b : Component} : a.compare b = .eq ↔ a = b := by
  cases a <;> cases b <;>
    simp [Component.compare, Component.rank, compareText_eq_iff]

theorem compareComponents_eq_iff {as bs : List Component} :
    compareComponents as bs = .eq ↔ as = bs := by
  induction as generalizing bs with
  | nil => cases bs <;> simp [compareComponents]
  | cons a as ih =>
    cases bs with
    | nil => simp [compareComponents]
    | cons b bs =>
      simp [compareComponents, Ordering.then_eq_eq, ih, Component.compare_eq_iff]

variable {p q r : Path}

theorem same_iff : p.same q = true ↔ p.components = q.components := beq_iff_eq

theorem compare_eq_iff : p.compare q = .eq ↔ p.same q = true := by
  rw [compare, compareComponents_eq_iff, same_iff]

theorem same_refl (p : Path) : p.same p = true := same_iff.2 rfl

theorem same_symm (h : p.same q = true) : q.same p = true := same_iff.2 (same_iff.1 h).symm

theorem same_trans (h : p.same q = true) (h' : q.same r = true) : p.same r = true :=
  same_iff.2 ((same_iff.1 h).trans (same_iff.1 h'))

theorem same_congr (h : p.same q = true) (r : Path) : p.same r = q.same r := by
  rw [same, same, same_iff.1 h]

end Path

namespace Report

variable {report report' : Report} {files : List Path} {vs : List Violation} {file : Path}

/-! ### The files of a report -/

theorem any_insertFile (file p : Path) (entries : List (Path × List Violation)) :
    ((insertFile file entries).any fun e => e.1.same p) =
      (file.same p || entries.any fun e => e.1.same p) := by
  induction entries with
  | nil => simp [insertFile]
  | cons e entries ih =>
    cases hcompare : file.compare e.1 with
    | lt => simp [insertFile, hcompare]
    | eq =>
      have hsame := Path.same_congr (Path.compare_eq_iff.1 hcompare) p
      simp [insertFile, hcompare, hsame]
    | gt => simp only [insertFile, hcompare, List.any_cons, ih, Bool.or_left_comm]

theorem covers_empty_eq (files : List Path) (p : Path) :
    (empty files).covers p = files.any (·.same p) := by
  have hfold : ∀ (files : List Path) (entries : List (Path × List Violation)),
      ((files.foldl (fun fs f => insertFile f fs) entries).any fun e => e.1.same p) =
        (files.any (·.same p) || entries.any fun e => e.1.same p) := by
    intro files
    induction files with
    | nil => exact fun entries => rfl
    | cons f files ih =>
      intro entries
      rw [List.foldl_cons, ih, any_insertFile, List.any_cons, ← Bool.or_assoc,
        Bool.or_comm (files.any _)]
  exact (hfold files []).trans (Bool.or_false _)

/-- A new report covers its files. -/
theorem covers_empty (h : file ∈ files) : (empty files).covers file = true := by
  rw [covers_empty_eq]
  exact List.any_eq_true.2 ⟨file, h, Path.same_refl file⟩

theorem covers_of_addAll (h : report.addAll vs = .ok report') (file : Path) :
    report'.covers file = report.covers file := by
  induction vs generalizing report with
  | nil =>
    cases h
    rfl
  | cons v vs ih =>
    unfold addAll at h
    split at h
    · rename_i report₁ hadd
      rw [ih h, covers_of_add hadd]
    · cases h

theorem addFixed_ok (h : report.covers file = true) :
    ∃ report', report.addFixed file = .ok report' ∧
      ∀ p, report'.covers p = report.covers p := by
  unfold addFixed
  rw [h, Bool.not_true, if_neg Bool.false_ne_true]
  split
  · exact ⟨report, rfl, fun p => rfl⟩
  · exact ⟨_, rfl, fun p => rfl⟩

end Report

namespace Linter

variable {l : Linter} {fix fixed : Bool} {path : Path} {content : List Char} {d : Disk}
  {cache : Option Cache} {files : List Path} {pending : List (Path × List Char)} {v : Violation}
  {o : Outcome} {report : Report}

/-! ### What a run records -/

theorem file_of_mem_violationsIn (h : v ∈ l.violationsIn path content) : v.file = path := by
  unfold violationsIn at h
  split at h
  · rw [List.mem_singleton.1 h]
    rfl
  · obtain ⟨r, -, hv⟩ := List.mem_flatMap.1 h
    obtain ⟨f, -, rfl⟩ := List.mem_map.1 hv
    rfl

/-- What may become of a file: the violations are its own, and without any what is left of it is
    clean. -/
structure Sincere (l : Linter) (path : Path) (o : Outcome) : Prop where
  path_eq : o.path = path
  file_eq : ∀ v ∈ o.violations, v.file = path
  clean : o.violations = [] → l.violationsIn path o.content = []

theorem Sincere.of_failures {failures : List Violation} (h : ∀ v ∈ failures, v.file = path) :
    l.Sincere path ⟨path, content, failures ++ l.violationsIn path content, fixed⟩ where
  path_eq := rfl
  file_eq v hv := (List.mem_append.1 hv).elim (h v) file_of_mem_violationsIn
  clean hnil := (List.append_eq_nil_iff.1 hnil).2

theorem Sincere.of_clean : l.Sincere path ⟨path, content, l.violationsIn path content, fixed⟩ where
  path_eq := rfl
  file_eq _ := file_of_mem_violationsIn
  clean := id

theorem sincere_finishFile {change : Except Violation (Option (List Char))}
    (h : ∀ v, change = .error v → v.file = path) :
    l.Sincere path (l.finishFile path content change d).1 := by
  unfold finishFile
  split
  · rename_i v
    exact .of_failures fun v' hv' => by rw [List.mem_singleton.1 hv', h v rfl]
  · exact .of_clean
  · split
    · exact .of_failures fun v hv => by rw [List.mem_singleton.1 hv]; rfl
    · exact .of_clean

theorem file_of_changeOf {result : Except FixError (List Char)}
    (h : changeOf path content result = .error v) : v.file = path := by
  unfold changeOf at h
  split at h
  · cases h
  · cases h
  · obtain rfl := Except.error.inj h
    rfl

theorem sincere_processFile (l : Linter) (fix : Bool) (path : Path) (content : List Char)
    (s : Progress) : l.Sincere path (l.processFile fix path content s).1 := by
  unfold processFile
  cases fix with
  | false => exact sincere_finishFile nofun
  | true => exact sincere_finishFile fun v hv => file_of_changeOf hv

theorem sincere_of_mem_processAll {s : Progress} (h : o ∈ (l.processAll fix pending s).1) :
    ∃ e ∈ pending, l.Sincere e.1 o := by
  induction pending generalizing s with
  | nil => cases h
  | cons e pending ih =>
    rcases List.mem_cons.1 h with rfl | h
    · exact ⟨e, List.mem_cons_self, l.sincere_processFile fix e.1 e.2 s⟩
    · obtain ⟨e', he', hsincere⟩ := ih h
      exact ⟨e', List.mem_cons_of_mem e he', hsincere⟩

/-! Reading one file more. -/

theorem readFiles_of_error {e : DiskError} (h : d.read path = .error e) :
    readFiles d cache (path :: files) = ((readFiles d cache files).1,
      Violation.fatal (readMessage e) path none :: (readFiles d cache files).2) := by
  simp only [readFiles, h]

theorem readFiles_of_isPending (h : d.read path = .ok content)
    (hpending : isPending cache path content = true) :
    readFiles d cache (path :: files) =
      ((path, content) :: (readFiles d cache files).1, (readFiles d cache files).2) := by
  simp only [readFiles, h, if_pos hpending]

theorem readFiles_of_not_isPending (h : d.read path = .ok content)
    (hpending : isPending cache path content = false) :
    readFiles d cache (path :: files) = readFiles d cache files := by
  simp only [readFiles, h, hpending, if_neg Bool.false_ne_true]

theorem readFiles_subset (d : Disk) (cache : Option Cache) (files : List Path) :
    (∀ e ∈ (readFiles d cache files).1, e.1 ∈ files) ∧
      ∀ v ∈ (readFiles d cache files).2, v.file ∈ files := by
  induction files with
  | nil => exact ⟨nofun, nofun⟩
  | cons path files ih =>
    obtain ⟨ihpending, ihfailures⟩ := ih
    cases hread : d.read path with
    | error e =>
      rw [readFiles_of_error hread]
      grind [Violation.fatal]
    | ok content =>
      cases hpending : isPending cache path content with
      | true =>
        rw [readFiles_of_isPending hread hpending]
        grind
      | false =>
        rw [readFiles_of_not_isPending hread hpending]
        grind

/-! ### Putting the report together -/

theorem addOutcome_ok (hcovers : report.covers path = true) (h : l.Sincere path o) :
    ∃ report', addOutcome report o = .ok report' ∧
      ∀ p, report'.covers p = report.covers p := by
  have hviolations : ∀ v ∈ o.violations, report.covers v.file = true :=
    fun v hv => by rw [h.file_eq v hv, hcovers]
  obtain ⟨report₁, hadd, -⟩ := Report.addAll_ok hviolations
  have hcovers₁ := Report.covers_of_addAll hadd
  simp only [addOutcome, hadd]
  split
  · have hpath : report₁.covers o.path = true := by rw [h.path_eq, hcovers₁, hcovers]
    obtain ⟨report₂, hfixed, hcovers₂⟩ := Report.addFixed_ok hpath
    exact ⟨report₂, hfixed, fun p => (hcovers₂ p).trans (hcovers₁ p)⟩
  · exact ⟨report₁, rfl, hcovers₁⟩

theorem addOutcomes_ok {outcomes : List Outcome}
    (h : ∀ o ∈ outcomes, ∃ path, report.covers path = true ∧ l.Sincere path o) :
    ∃ report', addOutcomes report outcomes = .ok report' := by
  induction outcomes generalizing report with
  | nil => exact ⟨report, rfl⟩
  | cons o outcomes ih =>
    obtain ⟨path, hcovers, hsincere⟩ := h o List.mem_cons_self
    obtain ⟨report₁, hadd, hcovers₁⟩ := addOutcome_ok hcovers hsincere
    simp only [addOutcomes, hadd]
    refine ih fun o' ho' => ?_
    obtain ⟨path', hcovers', hsincere'⟩ := h o' (List.mem_cons_of_mem o ho')
    exact ⟨path', by rw [hcovers₁, hcovers'], hsincere'⟩

/-- A run gives a result: its report takes what could not be read, then the outcomes. -/
theorem run_ok (l : Linter) (d : Disk) (files : List Path) (fix : Bool) (cache : Option Cache)
    (calls : CallCounts) :
    ∃ unread report, (Report.empty files).addAll (readFiles d cache files).2 = .ok unread ∧
      addOutcomes unread
        (l.processAll fix (readFiles d cache files).1 { disk := d, calls }).1 = .ok report := by
  obtain ⟨hpending, hfailures⟩ := readFiles_subset d cache files
  obtain ⟨unread, hunread, -⟩ :=
    Report.addAll_ok fun v hv => Report.covers_empty (hfailures v hv)
  have houtcomes : ∀ o ∈ (l.processAll fix (readFiles d cache files).1 { disk := d, calls }).1,
      ∃ path, unread.covers path = true ∧ l.Sincere path o := by
    intro o ho
    obtain ⟨e, he, hsincere⟩ := sincere_of_mem_processAll ho
    refine ⟨e.1, ?_, hsincere⟩
    rw [Report.covers_of_addAll hunread, Report.covers_empty (hpending e he)]
  obtain ⟨report, hreport⟩ := addOutcomes_ok houtcomes
  exact ⟨unread, report, hunread, hreport⟩

end Linter

end TwigStyle
