import TwigStyle.Linter.Run
import TwigStyle.Proofs.Clean
import TwigStyle.Proofs.Written

/-!
# What becomes of a file

Processing a file fixes its content, writes it back if it has changed, and checks what is there then.
Fixing can fail in three ways, and in none of them the half-fixed text may show: not on the disk, and
not in what is reported.  `Linter.Processed` says what does show, ending by ending, and
`processFile_processed` says that it is so for every ruleset and every content.
-/

namespace TwigStyle

/-! ### Linting one file -/

namespace Report

variable {r : Report} {f : Path} {us vs : List Violation}

theorem addAll_singleton (hfiles : r.files = [(f, us)]) (hvs : ∀ v ∈ vs, v.file = f) :
    ∃ r', r.addAll vs = .ok r' ∧ r'.files = [(f, us ++ vs)] := by
  induction vs generalizing r us with
  | nil => exact ⟨r, rfl, by rw [hfiles, List.append_nil]⟩
  | cons v vs ih =>
    have hsame : f.same v.file = true := by
      rw [hvs v List.mem_cons_self, Path.same, beq_self_eq_true]
    obtain ⟨r₁, hadd, hfiles₁⟩ : ∃ r₁, r.add v = .ok r₁ ∧ r₁.files = [(f, us ++ [v])] := by
      refine ⟨{ r with files := appendTo v r.files, totals := r.totals.count v.severity }, ?_, ?_⟩
      · simp [add, covers, hfiles, hsame]
      · simp [hfiles, hsame, appendTo]
    obtain ⟨r', hr', hfiles'⟩ := ih hfiles₁ fun v' hv' => hvs v' (List.mem_cons_of_mem v hv')
    refine ⟨r', ?_, by rw [hfiles', List.append_assoc, List.singleton_append]⟩
    rw [addAll, hadd]
    exact hr'

end Report

namespace Linter

variable {l : Linter} {path : Path} {content : List Char}

/-- What linting a content records in a report of its file alone.  A content that cannot be cut into
    tokens has one violation, which is fatal. -/
inductive Records (l : Linter) (path : Path) (content : List Char) : List Violation → Prop
  | lint {t : Template} {report : Report} (ht : tokenize l.table content = .ok t)
      (hreport : l.ruleset.lint (.under l.root path content) t (.empty [path]) = .ok report) :
    Records l path content (report.allViolations none)
  | unreadable {e : LexError} (he : tokenize l.table content = .error e) :
    Records l path content [Violation.fatal e.message path (some e.line)]

theorem records_violationsIn (l : Linter) (path : Path) (content : List Char) :
    l.Records path content (l.violationsIn path content) := by
  unfold violationsIn
  split
  · rename_i e he
    exact .unreadable he
  · rename_i t ht
    have hfile : ∀ v ∈ l.ruleset.violations (.under l.root path content) t.stream t.directives,
        v.file = path := by
      intro v hv
      obtain ⟨r, -, hv⟩ := List.mem_flatMap.1 hv
      obtain ⟨f, -, rfl⟩ := List.mem_map.1 hv
      rfl
    obtain ⟨report, hreport, hfiles⟩ := Report.addAll_singleton (r := .empty [path]) rfl hfile
    have hcovers : (Report.empty [path]).covers path = true := by
      simp [Report.covers, Report.empty, Report.insertFile, Path.same]
    have hlint : l.ruleset.lint (.under l.root path content) t (.empty [path]) = .ok report := by
      rw [Ruleset.lint, if_pos (by exact hcovers)]
      exact hreport
    have hall : report.allViolations none =
        l.ruleset.violations (.under l.root path content) t.stream t.directives := by
      rw [Report.allViolations, hfiles]
      simp [Severity.atLeast]
    rw [← hall]
    exact .lint ht hlint

end Linter

/-! ### Fixing -/

namespace Fixer

variable {rs : Ruleset} {file : SourceFile} {fx : Fixer} {content out : List Char}

theorem tokenize_of_passes_ok {remaining : Nat}
    (h : (passes rs file remaining content fx).1 = .ok out) :
    ∃ t, tokenize fx.table out = .ok t := by
  induction remaining generalizing content fx with
  | zero => cases h
  | succ remaining ih =>
    simp only [passes] at h
    split at h
    · cases h
    · rename_i t ht
      split at h
      · cases h
        exact ⟨t, ht⟩
      · split at h
        · have hout := ih h
          rwa [pass_table] at hout
        · have hout := ih h
          rwa [pass_table] at hout

theorem fixFile_readable (h : (fx.fixFile rs file).1 = .ok out) :
    ∃ t, tokenize fx.table out = .ok t := by
  let start : Fixer := { fx with buffer := fx.buffer.startFile file.content }
  have hpasses : (passes rs file maxPasses file.content start).1 = .ok out := h
  have hout := tokenize_of_passes_ok hpasses
  exact hout

theorem fixFile_unreadable {e : LexError} (h : tokenize fx.table file.content = .error e) :
    (fx.fixFile rs file).1 = .error (.unreadable e) := by
  have hstart : ∀ remaining, (passes rs file (remaining + 1) file.content
      { fx with buffer := fx.buffer.startFile file.content }).1 = .error (.unreadable e) := by
    intro remaining
    simp only [passes, h]
    rfl
  exact hstart 49

end Fixer

/-! ### Processing -/

namespace Linter

variable {l : Linter} {fix : Bool} {path : Path} {content : List Char}

/-- What becomes of a file and of the disk, where `result` is what fixing the content gives. -/
structure Processed (l : Linter) (fix : Bool) (path : Path) (content : List Char)
    (result : Except FixError (List Char)) (before : Disk) (o : Outcome) (after : Disk) : Prop where
  /-- The disk changes, and the file counts as fixed, only for a new text that fixing has given. -/
  changed : after ≠ before ∨ o.fixed = true → fix = true ∧
    ∃ new, result = .ok new ∧ new ≠ content ∧ before.write path new = .ok after
  /-- A new text is written, no other file is touched, and the new text is what is checked. -/
  written : fix = true → ∀ new, result = .ok new → new ≠ content →
    ∀ disk, before.write path new = .ok disk →
      after = disk ∧ after.read path = .ok new ∧
      (∀ q u, before.locate q ≠ before.locate path → before.read q = .ok u →
        after.read q = .ok u) ∧
      o.fixed = true ∧ (∃ t, tokenize l.table new = .ok t) ∧ l.Records path new o.violations
  /-- Without a new text the content is checked as it is. -/
  kept : fix = false ∨ result = .ok content ∨ (∃ cause, result = .error (.unreadable cause)) →
    after = before ∧ o.fixed = false ∧ l.Records path content o.violations
  /-- Rules that fail on the content are one fatal violation, and the content is checked as it is. -/
  failed : fix = true → ∀ e, result = .error e → (∀ cause, e ≠ .unreadable cause) →
    after = before ∧ o.fixed = false ∧
      ∃ vs, l.Records path content vs ∧ o.violations = Violation.fatal e.message path none :: vs
  /-- A content that cannot be cut into tokens has one violation, whether it is to be fixed or not. -/
  unreadable : ∀ e, tokenize l.table content = .error e →
    after = before ∧ o.fixed = false ∧
      o.violations = [Violation.fatal e.message path (some e.line)]

/-! The endings, one after the other. -/

namespace Processed

variable {result : Except FixError (List Char)} {before : Disk} {new : List Char}

theorem of_kept
    (h : fix = false ∨ result = .ok content ∨ ∃ cause, result = .error (.unreadable cause)) :
    l.Processed fix path content result before
      ⟨path, content, l.violationsIn path content, false⟩ before where
  changed := by
    rintro (hne | hfixed)
    · exact absurd rfl hne
    · cases hfixed
  written hfix new hnew hne := by
    rcases h with h | h | ⟨cause, h⟩
    · rw [h] at hfix
      cases hfix
    · rw [h] at hnew
      exact absurd (Except.ok.inj hnew).symm hne
    · rw [h] at hnew
      cases hnew
  kept _ := ⟨rfl, rfl, l.records_violationsIn path content⟩
  failed hfix e he hother := by
    rcases h with h | h | ⟨cause, h⟩
    · rw [h] at hfix
      cases hfix
    · rw [h] at he
      cases he
    · rw [h] at he
      exact absurd (Except.error.inj he).symm (hother cause)
  unreadable e he := ⟨rfl, rfl, by simp only [violationsIn, he]⟩

theorem of_failed {e : FixError} (hfix : fix = true) (he : result = .error e)
    (hother : ∀ cause, e ≠ .unreadable cause) (hreadable : ∃ t, tokenize l.table content = .ok t) :
    l.Processed fix path content result before
      ⟨path, content, Violation.fatal e.message path none :: l.violationsIn path content, false⟩
      before where
  changed := by
    rintro (hne | hfixed)
    · exact absurd rfl hne
    · cases hfixed
  written _ new hnew := by
    rw [he] at hnew
    cases hnew
  kept h := by
    rcases h with h | h | ⟨cause, h⟩
    · rw [hfix] at h
      cases h
    · rw [he] at h
      cases h
    · rw [he] at h
      exact absurd (Except.error.inj h) (hother cause)
  failed _ e' he' _ := by
    rw [he] at he'
    obtain rfl := Except.error.inj he'
    exact ⟨rfl, rfl, _, l.records_violationsIn path content, rfl⟩
  unreadable e' he' := by
    obtain ⟨t, ht⟩ := hreadable
    rw [ht] at he'
    cases he'

/-- There is a new text: it is written, or the disk refuses it. -/
theorem of_new (hfix : fix = true) (hnew : result = .ok new) (hne : new ≠ content)
    (hreadable : ∃ t, tokenize l.table content = .ok t) (hout : ∃ t, tokenize l.table new = .ok t) :
    l.Processed fix path content result before
      (l.finishFile path content (.ok (some new)) before).1
      (l.finishFile path content (.ok (some new)) before).2 := by
  have hnotKept : ¬(fix = false ∨ result = .ok content ∨
      ∃ cause, result = .error (.unreadable cause)) := by
    rintro (h | h | ⟨cause, h⟩)
    · rw [hfix] at h
      cases h
    · rw [hnew] at h
      exact hne (Except.ok.inj h)
    · rw [hnew] at h
      cases h
  have hnotFailed : ∀ e, result ≠ .error e := by
    intro e he
    rw [hnew] at he
    cases he
  have hnotUnreadable : ∀ e, tokenize l.table content ≠ .error e := by
    obtain ⟨t, ht⟩ := hreadable
    intro e he
    rw [ht] at he
    cases he
  unfold finishFile
  cases hwrite : before.write path new with
  | error e =>
    simp only [hwrite]
    refine ⟨?_, ?_, fun h => absurd h hnotKept, fun _ e he => absurd he (hnotFailed e),
      fun e he => absurd he (hnotUnreadable e)⟩
    · rintro (h | h)
      · exact absurd rfl h
      · cases h
    · intro _ new' hnew' _ disk hdisk
      rw [hnew] at hnew'
      obtain rfl := Except.ok.inj hnew'
      rw [hwrite] at hdisk
      cases hdisk
  | ok disk =>
    simp only [hwrite]
    refine ⟨fun _ => ⟨hfix, new, hnew, hne, hwrite⟩, ?_, fun h => absurd h hnotKept,
      fun _ e he => absurd he (hnotFailed e), fun e he => absurd he (hnotUnreadable e)⟩
    intro _ new' hnew' _ disk' hdisk'
    rw [hnew] at hnew'
    obtain rfl := Except.ok.inj hnew'
    rw [hwrite] at hdisk'
    obtain rfl := Except.ok.inj hdisk'
    exact ⟨rfl, Disk.read_write hwrite, fun q u hq hu => Disk.read_write_of_ne hwrite hq hu, rfl,
      hout, l.records_violationsIn path new⟩

end Processed

/-- **Failed fixes leave the file intact.** Whatever the rules are, a file is written only if fixing
    gives a new text, and what is reported is what linting the file as it then is records. -/
theorem processFile_processed (l : Linter) (fix : Bool) (path : Path) (content : List Char)
    (s : Progress) :
    l.Processed fix path content
      (Fixer.fixFile { table := l.table, calls := s.calls } l.ruleset
        (.under l.root path content)).1
      s.disk (l.processFile fix path content s).1 (l.processFile fix path content s).2.disk := by
  cases fix with
  | false => exact .of_kept (.inl rfl)
  | true =>
    have hprocess : (l.processFile true path content s).1 = (l.finishFile path content
          (changeOf path content (l.fixContent path content s.calls).1) s.disk).1 ∧
        (l.processFile true path content s).2.disk = (l.finishFile path content
          (changeOf path content (l.fixContent path content s.calls).1) s.disk).2 := ⟨rfl, rfl⟩
    have hresult : (Fixer.fixFile { table := l.table, calls := s.calls } l.ruleset
        (.under l.root path content)).1 = (l.fixContent path content s.calls).1 := rfl
    have hunreadable : ∀ e, tokenize l.table content = .error e →
        (l.fixContent path content s.calls).1 = .error (.unreadable e) :=
      fun e he => Fixer.fixFile_unreadable he
    have hout : ∀ new, (l.fixContent path content s.calls).1 = .ok new →
        ∃ t, tokenize l.table new = .ok t :=
      fun new hnew => Fixer.fixFile_readable hnew
    rw [hprocess.1, hprocess.2, hresult]
    -- From here on only these two facts about the fixer are used.
    generalize (l.fixContent path content s.calls).1 = result at hunreadable hout
    have hreadable : (∀ cause, result ≠ .error (.unreadable cause)) →
        ∃ t, tokenize l.table content = .ok t := by
      intro hne
      cases ht : tokenize l.table content with
      | error e => exact absurd (hunreadable e ht) (hne e)
      | ok t => exact ⟨t, rfl⟩
    cases result with
    | ok new =>
      have hchange : changeOf path content (.ok new) =
          .ok (if new = content then none else some new) := rfl
      by_cases hne : new = content
      · rw [hchange, if_pos hne]
        exact .of_kept (.inr (.inl (by rw [hne])))
      · rw [hchange, if_neg hne]
        exact .of_new rfl rfl hne (hreadable nofun) (hout new rfl)
    | error e =>
      cases e with
      | unreadable cause => exact .of_kept (.inr (.inr ⟨cause, rfl⟩))
      | endless passes => exact .of_failed rfl rfl nofun (hreadable nofun)
      | broken pass cause => exact .of_failed rfl rfl nofun (hreadable nofun)

/-- A sum without spaces is written back with spaces. -/
theorem processFile_processed_sum :
    let l : Linter := ⟨⟨"/"⟩, ⟨Standard.full.rules⟩, [], [], {}, OperatorTable.default⟩
    let s : Progress :=
      { disk := ⟨[("a.twig", .file (.text "\x7b\x7ba+b\x7d\x7d".toList))], ⟨"/"⟩⟩ }
    (l.processFile true ⟨"/a.twig"⟩ "\x7b\x7ba+b\x7d\x7d".toList s).1.fixed = true ∧
      (l.processFile true ⟨"/a.twig"⟩ "\x7b\x7ba+b\x7d\x7d".toList s).2.disk.read ⟨"/a.twig"⟩ =
        .ok "\x7b\x7b a + b \x7d\x7d\n".toList := by
  intro l s
  have hfixed : (Fixer.fixFile { table := l.table, calls := s.calls } l.ruleset
      (.under l.root ⟨"/a.twig"⟩ "\x7b\x7ba+b\x7d\x7d".toList)).1.toOption =
        some "\x7b\x7b a + b \x7d\x7d\n".toList := by decide +kernel
  obtain ⟨disk, hwrite⟩ := exists_ok_of_isOk
    (x := s.disk.write ⟨"/a.twig"⟩ "\x7b\x7b a + b \x7d\x7d\n".toList) (by decide +kernel)
  obtain ⟨-, hread, -, hflag, -, -⟩ :=
    (processFile_processed l true ⟨"/a.twig"⟩ "\x7b\x7ba+b\x7d\x7d".toList s).written rfl _
      (eq_ok_of_toOption hfixed) (by decide) disk hwrite
  exact ⟨hflag, hread⟩

end Linter

end TwigStyle
