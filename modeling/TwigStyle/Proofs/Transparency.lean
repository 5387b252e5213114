import TwigStyle.Proofs.Reporting

/-!
# The cache is transparent

A run with a cache skips files that it takes for clean.  That shows nowhere if every entry of the
cache stands for a content that is clean (`Cache.Sound`): a clean content adds nothing to the report
and is left alone by a fixing run as well (`processFile_of_clean`), so a run over the files that are
left gives what the full run gives (`Thinned`).  A run records only contents that it has found clean,
which keeps the cache sound, whatever happens to the disk in between.

An entry is looked up by the components of a path, while the path limits of a rule match its text.
Spellings of one path share an entry, and the cache is transparent only as long as the path limits do
not tell them apart (`Linter.IgnoresSpelling`); `history_respelled` shows what happens otherwise.
-/

namespace TwigStyle

/-! ### Fixing does not depend on what was fixed before -/

namespace Fixer

variable {rs : Ruleset} {file : SourceFile} {fx fx' : Fixer}

/-- With built-in rules, what the passes give is decided by the text and the buffer. -/
theorem passes_congr (hrs : ∀ r ∈ rs.rules, r.isBuiltIn = true) (htable : fx.table = fx'.table)
    (hbuffer : fx.buffer = fx'.buffer) (remaining : Nat) (content : List Char) :
    (passes rs file remaining content fx).1 = (passes rs file remaining content fx').1 := by
  induction remaining generalizing content fx fx' with
  | zero => simp only [passes, hbuffer]
  | succ remaining ih =>
    simp only [passes, htable, hbuffer]
    split
    · rfl
    · rename_i t ht
      have hpass : ({ fx with table := fx'.table, buffer := fx'.buffer.startPass }.pass rs
            { file with content } t).buffer =
          ({ fx' with buffer := fx'.buffer.startPass }.pass rs { file with content } t).buffer := by
        rw [pass_buffer hrs, pass_buffer hrs]
      have htables : ({ fx with table := fx'.table, buffer := fx'.buffer.startPass }.pass rs
            { file with content } t).table =
          ({ fx' with buffer := fx'.buffer.startPass }.pass rs { file with content } t).table := by
        rw [pass_table, pass_table]
      simp only [hpass]
      split
      · rfl
      · split
        · exact ih htables hpass content
        · exact ih htables hpass _

end Fixer

namespace Linter

variable {l : Linter} {fix : Bool} {path : Path} {content : List Char} {s s' : Progress}

theorem fixContent_congr (hrs : ∀ r ∈ l.ruleset.rules, r.isBuiltIn = true)
    (calls calls' : CallCounts) :
    (l.fixContent path content calls).1 = (l.fixContent path content calls').1 := by
  let start (calls : CallCounts) : Fixer :=
    { table := l.table, buffer := EditBuffer.startFile {} content, calls }
  have htable : (start calls).table = (start calls').table := rfl
  have hbuffer : (start calls).buffer = (start calls').buffer := rfl
  exact Fixer.passes_congr hrs htable hbuffer maxPasses content

theorem processFile_congr (hrs : ∀ r ∈ l.ruleset.rules, r.isBuiltIn = true)
    (hdisk : s.disk = s'.disk) (fix : Bool) (path : Path) (content : List Char) :
    (l.processFile fix path content s).1 = (l.processFile fix path content s').1 ∧
      (l.processFile fix path content s).2.disk = (l.processFile fix path content s').2.disk := by
  cases fix with
  | false => simp [processFile, hdisk]
  | true => simp [processFile, hdisk, fixContent_congr hrs s.calls s'.calls]

/-! ### Clean contents -/

/-- A content is clean if it can be cut into tokens and no rule that is asked finds anything. -/
theorem violationsIn_eq_nil_iff :
    l.violationsIn path content = [] ↔ ∃ t, tokenize l.table content = .ok t ∧
      ∀ r ∈ l.ruleset.rules, r.appliesTo (.under l.root path content) = true →
        ∀ f ∈ r.findings t.stream, f.isSilenced t.directives r.name = true := by
  cases ht : tokenize l.table content with
  | error e => simp [violationsIn, ht]
  | ok t =>
    simp only [violationsIn, ht, Ruleset.violations, Ruleset.violationsOf, Rule.lintFindings,
      List.flatMap_eq_nil_iff, List.map_eq_nil_iff, List.filter_eq_nil_iff, Except.ok.injEq,
      exists_eq_left']
    grind

theorem repairs_of_clean {t : Template} (ht : tokenize l.table content = .ok t)
    (h : l.violationsIn path content = []) :
    l.ruleset.repairs (.under l.root path content) t = [] := by
  obtain ⟨t', ht', hclean⟩ := violationsIn_eq_nil_iff.1 h
  obtain rfl : t = t' := Except.ok.inj (ht.symm.trans ht')
  simp only [Ruleset.repairs, List.flatMap_eq_nil_iff]
  intro r hr
  obtain ⟨hr, happlies⟩ := List.mem_filter.1 hr
  obtain ⟨hr, -⟩ := List.mem_filter.1 hr
  simpa [Rule.repairs] using hclean r hr happlies

/-- A clean content is left alone, whether it is to be fixed or not. -/
theorem processFile_of_clean (hrs : ∀ r ∈ l.ruleset.rules, r.isBuiltIn = true)
    (h : l.violationsIn path content = []) (fix : Bool) (s : Progress) :
    (l.processFile fix path content s).1 = ⟨path, content, [], false⟩ ∧
      (l.processFile fix path content s).2.disk = s.disk := by
  cases fix with
  | false => simp [processFile, finishFile, h]
  | true =>
    obtain ⟨t, ht, -⟩ := violationsIn_eq_nil_iff.1 h
    have hfix : (l.fixContent path content s.calls).1 = .ok content := by
      let start : Fixer :=
        { table := l.table, buffer := EditBuffer.startFile {} content, calls := s.calls }
      have ht' : tokenize start.table content = .ok t := ht
      have hnil : l.ruleset.repairs { SourceFile.under l.root path content with content } t = [] :=
        repairs_of_clean ht h
      obtain ⟨fx', hpasses, -⟩ := Fixer.passes_of_repairs_nil hrs ht' hnil
      exact congrArg Prod.fst hpasses
    simp [processFile, hfix, changeOf, finishFile, h]

/-! ### Leaving out clean files -/

/-- Files to process, and what is left of them without some that are clean. -/
inductive Thinned (l : Linter) : (thin full : List (Path × List Char)) → Prop
  | nil : Thinned l [] []
  | keep (e : Path × List Char) {thin full : List (Path × List Char)} :
    Thinned l thin full → Thinned l (e :: thin) (e :: full)
  | skip {e : Path × List Char} {thin full : List (Path × List Char)} :
    l.violationsIn e.1 e.2 = [] → Thinned l thin full → Thinned l thin (e :: full)

/-- Clean files that are left out are missed neither on the disk nor in the report. -/
theorem Thinned.processAll (hrs : ∀ r ∈ l.ruleset.rules, r.isBuiltIn = true)
    {thin full : List (Path × List Char)} (h : l.Thinned thin full) (fix : Bool)
    (hdisk : s.disk = s'.disk) :
    (l.processAll fix thin s).2.disk = (l.processAll fix full s').2.disk ∧
      (l.processAll fix thin s).1 ⊆ (l.processAll fix full s').1 ∧
      ∀ report, addOutcomes report (l.processAll fix thin s).1 =
        addOutcomes report (l.processAll fix full s').1 := by
  induction h generalizing s s' with
  | nil => exact ⟨hdisk, fun o ho => ho, fun report => rfl⟩
  | keep e h ih =>
    obtain ⟨houtcome, hdisk⟩ := processFile_congr hrs hdisk fix e.1 e.2
    obtain ⟨ihdisk, ihsubset, ihreport⟩ := ih hdisk
    refine ⟨ihdisk, ?_, ?_⟩
    · simp only [Linter.processAll, houtcome]
      exact List.cons_subset_cons _ ihsubset
    · intro report
      simp only [Linter.processAll, houtcome, addOutcomes, ihreport]
  | @skip e thin full hclean h ih =>
    obtain ⟨houtcome, hdisk'⟩ := processFile_of_clean hrs hclean fix s'
    obtain ⟨ihdisk, ihsubset, ihreport⟩ := ih (hdisk.trans hdisk'.symm)
    refine ⟨ihdisk, ?_, ?_⟩
    · simp only [Linter.processAll]
      exact List.subset_cons_of_subset _ ihsubset
    · intro report
      simp only [Linter.processAll, houtcome, addOutcomes, addOutcome, Report.addAll, ihreport]
      rfl

/-- The path limits of the rules do not tell spellings of one path apart. -/
def IgnoresSpelling (l : Linter) (paths : List Path) : Prop :=
  ∀ p ∈ paths, ∀ q ∈ paths, p.same q = true → ∀ r ∈ l.ruleset.rules, ∀ content,
    r.appliesTo (.under l.root p content) = r.appliesTo (.under l.root q content)

theorem IgnoresSpelling.violationsIn {paths : List Path} {p q : Path} (h : l.IgnoresSpelling paths)
    (hp : p ∈ paths) (hq : q ∈ paths) (hsame : p.same q = true)
    (hclean : l.violationsIn p content = []) : l.violationsIn q content = [] := by
  obtain ⟨t, ht, hfindings⟩ := violationsIn_eq_nil_iff.1 hclean
  refine violationsIn_eq_nil_iff.2 ⟨t, ht, fun r hr happlies => hfindings r hr ?_⟩
  rw [h p hp q hq hsame r hr, happlies]

end Linter

/-! ### Sound caches -/

namespace Cache

variable {l : Linter} {paths : List Path} {met : List (List Char)} {c : Cache} {p q : Path}
  {content : List Char} {print : String} {files : List (Path × String)}

theorem lookup_insert :
    ((insert p print files).find? fun e => e.1.same q).map (·.2) =
      if p.same q then some print else (files.find? fun e => e.1.same q).map (·.2) := by
  induction files with
  | nil => cases h : p.same q <;> simp [insert, h]
  | cons e files ih =>
    cases hcompare : p.compare e.1 with
    | lt => cases h : p.same q <;> simp [insert, hcompare, List.find?_cons, h]
    | eq =>
      have hsame := Path.same_congr (Path.compare_eq_iff.1 hcompare) q
      cases h : p.same q <;> simp [insert, hcompare, ← hsame, h]
    | gt =>
      simp only [insert, hcompare, List.find?_cons]
      cases hsame : e.1.same q with
      | false => exact ih
      | true =>
        -- The entry is another path than the one that is put in.
        rw [if_neg]
        intro h
        have heq := Path.compare_eq_iff.2 (Path.same_trans h (Path.same_symm hsame))
        rw [hcompare] at heq
        cases heq

theorem printOf?_mark (c : Cache) (p q : Path) (content : List Char) :
    (c.mark p content).printOf? q =
      if p.same q then some (fingerprint content) else c.printOf? q :=
  lookup_insert

/-- Every entry is the fingerprint of a content that was met and is clean, under some spelling. -/
def Sound (l : Linter) (paths : List Path) (met : List (List Char)) (c : Cache) : Prop :=
  ∀ q print, c.printOf? q = some print → ∃ p ∈ paths, ∃ content ∈ met,
    p.same q = true ∧ fingerprint content = print ∧ l.violationsIn p content = []

theorem Sound.mark (h : c.Sound l paths met) (hp : p ∈ paths) (hcontent : content ∈ met)
    (hclean : l.violationsIn p content = []) : (c.mark p content).Sound l paths met := by
  intro q print hprint
  rw [printOf?_mark] at hprint
  split at hprint
  · exact ⟨p, hp, content, hcontent, by assumption, Option.some.inj hprint, hclean⟩
  · exact h q print hprint

theorem Sound.markClean {outcomes : List Outcome} (h : c.Sound l paths met)
    (houtcomes : ∀ o ∈ outcomes, o.path ∈ paths ∧ o.content ∈ met ∧
      (o.violations = [] → l.violationsIn o.path o.content = [])) :
    (Linter.markClean c outcomes).Sound l paths met := by
  induction outcomes generalizing c with
  | nil => exact h
  | cons o outcomes ih =>
    obtain ⟨hpath, hcontent, hclean⟩ := houtcomes o List.mem_cons_self
    have hrest := fun o' ho' => houtcomes o' (List.mem_cons_of_mem o ho')
    simp only [Linter.markClean, List.foldl_cons]
    split
    · rename_i hempty
      exact ih (h.mark hpath hcontent (hclean (List.isEmpty_iff.1 hempty))) hrest
    · exact ih h hrest

theorem Sound.violationsIn (h : c.Sound l paths met) (hpaths : l.IgnoresSpelling paths)
    (hprint : ∀ a ∈ met, ∀ b ∈ met, fingerprint a = fingerprint b → a = b)
    (hp : p ∈ paths) (hcontent : content ∈ met) (hskip : c.needs p content = false) :
    l.violationsIn p content = [] := by
  have hknown : c.printOf? p = some (fingerprint content) := by
    simpa [needs] using hskip
  obtain ⟨q, hq, content', hcontent', hsame, hfingerprint, hclean⟩ := h p _ hknown
  obtain rfl := hprint content' hcontent' content hcontent hfingerprint
  exact hpaths.violationsIn hq hp hsame hclean

end Cache

/-! ### Runs and histories -/

namespace Linter

/-- What happens to the files of a project: a run, or any change from outside. -/
inductive Event where
  | run (files : List Path) (fix : Bool)
  | change (f : Disk → Disk)

/-- The files of the runs. -/
def Event.paths : Event → List Path
  | run files _ => files
  | change _ => []

/-- What the runs show, one after the other: the report, and the disk that is left. -/
def history (l : Linter) :
    List Event → Disk → Option Cache → CallCounts → Except Report.UnknownFile (List (Report × Disk))
  | [], _, _, _ => .ok []
  | .change f :: events, d, cache, calls => l.history events (f d) cache calls
  | .run files fix :: events, d, cache, calls =>
    match l.run d files fix cache calls with
    | .error e => .error e
    | .ok result =>
      match l.history events result.disk result.cache result.calls with
      | .error e => .error e
      | .ok shown => .ok ((result.report, result.disk) :: shown)

/-- What becomes of the files of a run when none is skipped. -/
def processFiles (l : Linter) (fix : Bool) (files : List Path) (d : Disk) (calls : CallCounts) :
    List Outcome × Progress :=
  l.processAll fix (readFiles d none files).1 { disk := d, calls }

/-- The contents that the runs meet: those that are read, and those that are checked in the end. -/
def contentsMet (l : Linter) : List Event → Disk → CallCounts → List (List Char)
  | [], _, _ => []
  | .change f :: events, d, calls => l.contentsMet events (f d) calls
  | .run files fix :: events, d, calls =>
    let (outcomes, after) := l.processFiles fix files d calls
    (readFiles d none files).1.map (·.2) ++ outcomes.map (·.content) ++
      l.contentsMet events after.disk after.calls

variable {l : Linter} {paths : List Path} {met : List (List Char)} {c : Cache} {d : Disk}
  {files : List Path}

/-- With a sound cache the same files cannot be read, and only clean files are skipped. -/
theorem readFiles_thinned (hsound : c.Sound l paths met) (hpaths : l.IgnoresSpelling paths)
    (hprint : ∀ a ∈ met, ∀ b ∈ met, Cache.fingerprint a = Cache.fingerprint b → a = b)
    (hfiles : files ⊆ paths) (hmet : ∀ e ∈ (readFiles d none files).1, e.2 ∈ met) :
    (readFiles d (some c) files).2 = (readFiles d none files).2 ∧
      l.Thinned (readFiles d (some c) files).1 (readFiles d none files).1 := by
  induction files with
  | nil => exact ⟨rfl, .nil⟩
  | cons path files ih =>
    have hrest : files ⊆ paths := List.subset_of_cons_subset hfiles
    cases hread : d.read path with
    | error e =>
      rw [readFiles_of_error hread] at hmet ⊢
      rw [readFiles_of_error hread]
      obtain ⟨hfailures, hthinned⟩ := ih hrest hmet
      exact ⟨congrArg (_ :: ·) hfailures, hthinned⟩
    | ok content =>
      have hnone : isPending none path content = true := rfl
      rw [readFiles_of_isPending hread hnone] at hmet ⊢
      obtain ⟨hfailures, hthinned⟩ := ih hrest fun e he => hmet e (List.mem_cons_of_mem _ he)
      cases hneeds : c.needs path content with
      | true =>
        have hpending : isPending (some c) path content = true := hneeds
        rw [readFiles_of_isPending hread hpending]
        exact ⟨hfailures, .keep _ hthinned⟩
      | false =>
        have hpending : isPending (some c) path content = false := hneeds
        rw [readFiles_of_not_isPending hread hpending]
        have hclean := hsound.violationsIn hpaths hprint (hfiles List.mem_cons_self)
          (hmet _ List.mem_cons_self) hneeds
        exact ⟨hfailures, .skip hclean hthinned⟩

theorem run_eq_ok {fix : Bool} {cache : Option Cache} {calls : CallCounts} {unread report : Report}
    (hunread : (Report.empty files).addAll (readFiles d cache files).2 = .ok unread)
    (hreport : addOutcomes unread
      (l.processAll fix (readFiles d cache files).1 { disk := d, calls }).1 = .ok report) :
    l.run d files fix cache calls = .ok {
      report
      disk := (l.processAll fix (readFiles d cache files).1 { disk := d, calls }).2.disk
      cache := cache.map fun c =>
        markClean c (l.processAll fix (readFiles d cache files).1 { disk := d, calls }).1
      calls := (l.processAll fix (readFiles d cache files).1 { disk := d, calls }).2.calls } := by
  simp only [run, hunread, hreport]

/-- One run: a sound cache does not show, and it stays sound. -/
theorem run_of_sound (hrs : ∀ r ∈ l.ruleset.rules, r.isBuiltIn = true)
    (hsound : c.Sound l paths met) (hpaths : l.IgnoresSpelling paths)
    (hprint : ∀ a ∈ met, ∀ b ∈ met, Cache.fingerprint a = Cache.fingerprint b → a = b)
    (hfiles : files ⊆ paths) (fix : Bool) (calls calls' : CallCounts)
    (hread : ∀ e ∈ (readFiles d none files).1, e.2 ∈ met)
    (hleft : ∀ o ∈ (l.processFiles fix files d calls').1, o.content ∈ met) :
    ∃ report c' counted, c'.Sound l paths met ∧
      l.run d files fix (some c) calls =
        .ok ⟨report, (l.processFiles fix files d calls').2.disk, some c', counted⟩ ∧
      l.run d files fix none calls' =
        .ok ⟨report, (l.processFiles fix files d calls').2.disk, none,
          (l.processFiles fix files d calls').2.calls⟩ := by
  obtain ⟨hfailures, hthinned⟩ := readFiles_thinned hsound hpaths hprint hfiles hread
  let start (calls : CallCounts) : Progress := { disk := d, calls }
  have hstart : (start calls).disk = (start calls').disk := rfl
  obtain ⟨hdisk, hsubset, hadds⟩ := hthinned.processAll hrs fix hstart
  -- The run without a cache says what the report is; the files that were skipped add nothing to it.
  obtain ⟨unread, report, hunread, hreport⟩ := l.run_ok d files fix none calls'
  let cached := l.processAll fix (readFiles d (some c) files).1 { disk := d, calls }
  refine ⟨report, markClean c cached.1, cached.2.calls, ?_, ?_, run_eq_ok hunread hreport⟩
  · refine hsound.markClean fun o ho => ?_
    obtain ⟨e, he, hsincere⟩ := sincere_of_mem_processAll ho
    have hpath : e.1 ∈ paths := hfiles ((readFiles_subset d (some c) files).1 e he)
    rw [hsincere.path_eq]
    exact ⟨hpath, hleft o (hsubset ho), hsincere.clean⟩
  · rw [← hfailures] at hunread
    rw [← hadds] at hreport
    rw [processFiles, ← hdisk]
    exact run_eq_ok hunread hreport

theorem history_of_sound (hrs : ∀ r ∈ l.ruleset.rules, r.isBuiltIn = true)
    (hpaths : l.IgnoresSpelling paths)
    (hprint : ∀ a ∈ met, ∀ b ∈ met, Cache.fingerprint a = Cache.fingerprint b → a = b)
    {events : List Event} (hsound : c.Sound l paths met) (calls calls' : CallCounts)
    (hevents : events.flatMap Event.paths ⊆ paths) (hmet : l.contentsMet events d calls' ⊆ met) :
    ∃ shown, l.history events d (some c) calls = .ok shown ∧
      l.history events d none calls' = .ok shown := by
  -- The counts of the calls drift apart when files are skipped, so there are two of them.
  induction events generalizing d c calls calls' with
  | nil => exact ⟨[], rfl, rfl⟩
  | cons event events ih =>
    rw [List.flatMap_cons, List.append_subset] at hevents
    cases event with
    | change f => exact ih hsound calls calls' hevents.2 hmet
    | run files fix =>
      simp only [contentsMet, List.append_subset] at hmet
      obtain ⟨⟨hread, hleft⟩, hrest⟩ := hmet
      have hfiles : files ⊆ paths := hevents.1
      obtain ⟨report, c', counted, hsound', hcached, hplain⟩ :=
        run_of_sound hrs hsound hpaths hprint hfiles fix calls calls'
          (fun e he => hread (List.mem_map_of_mem he)) fun o ho => hleft (List.mem_map_of_mem ho)
      obtain ⟨shown, hshown, hshown'⟩ := ih hsound' counted _ hevents.2 hrest
      refine ⟨(report, (l.processFiles fix files d calls').2.disk) :: shown, ?_, ?_⟩
      · simp only [history, hcached, hshown]
      · simp only [history, hplain, hshown']

/-- **The cache is transparent.** Starting with an empty cache, runs and changes from outside in any
    order show the same reports and leave the same disks as without one, provided that no two
    contents met have one fingerprint, and that the path limits of the rules do not tell spellings of
    one path apart. -/
theorem history_transparent (l : Linter) (events : List Event) (d : Disk) (c : Cache)
    (calls : CallCounts) (hrs : ∀ r ∈ l.ruleset.rules, r.isBuiltIn = true) (hempty : c.files = [])
    (hprint : ∀ a ∈ l.contentsMet events d calls, ∀ b ∈ l.contentsMet events d calls,
      Cache.fingerprint a = Cache.fingerprint b → a = b)
    (hpaths : l.IgnoresSpelling (events.flatMap Event.paths)) :
    ∃ shown, l.history events d (some c) calls = .ok shown ∧
      l.history events d none calls = .ok shown := by
  have hsound : c.Sound l (events.flatMap Event.paths) (l.contentsMet events d calls) := by
    intro q print hprint
    rw [Cache.printOf?, hempty] at hprint
    cases hprint
  exact history_of_sound hrs hpaths hprint hsound calls calls (fun p hp => hp) fun a ha => ha

/-- Indentation is checked in `a.twig` only.  Both files are clean, then `a.twig` is indented with a
    tab, and a fixing run puts that right. -/
theorem history_transparent_edited :
    let l : Linter :=
      ⟨⟨"/"⟩, ⟨[.onPaths (.indent 4) [⟨"a.twig", "a.twig".toList.map .char⟩], .blankEof]⟩, [], [], {},
        OperatorTable.default⟩
    let d : Disk :=
      ⟨[("a.twig", .file (.text "x\n".toList)), ("b.twig", .file (.text "\tx\n".toList))], ⟨"/"⟩⟩
    let edit : Disk → Disk := fun d => (d.write ⟨"/a.twig"⟩ "\tx\n".toList).toOption.getD d
    let files : List Path := [⟨"/a.twig"⟩, ⟨"/b.twig"⟩]
    let events : List Event := [.run files false, .change edit, .run files false, .run files true]
    ∃ shown, l.history events d (some ⟨⟨"/.cache"⟩, "", []⟩) [] = .ok shown ∧
      l.history events d none [] = .ok shown := by
  intro l d edit files events
  refine history_transparent l events d ⟨⟨"/.cache"⟩, "", []⟩ [] (by decide) rfl ?_ ?_
  · decide +kernel
  · have hfiles : ∀ p ∈ events.flatMap Event.paths, ∀ q ∈ events.flatMap Event.paths,
        p.same q = true → p = q := by decide +kernel
    intro p hp q hq hsame r _ content
    rw [hfiles p hp q hq hsame]

/-- Indentation is checked in `a/b.twig`, and `a//b.twig` is another spelling of that path.  One file
    with one content is checked under both: the second run has an error to report, but the cache
    takes the file for clean, since nothing was found under the other spelling. -/
theorem history_respelled :
    let l : Linter :=
      ⟨⟨"/"⟩, ⟨[.onPaths (.indent 4) [⟨"a/b.twig", "a/b.twig".toList.map .char⟩]]⟩, [], [], {},
        OperatorTable.default⟩
    let d : Disk := ⟨[("a", .directory [("b.twig", .file (.text "\tx\n".toList))])], ⟨"/"⟩⟩
    let events : List Event := [.run [⟨"/a//b.twig"⟩] false, .run [⟨"/a/b.twig"⟩] false]
    let errors (cache : Option Cache) : Option (List Nat) :=
      (l.history events d cache []).toOption.map fun shown => shown.map (·.1.totals.errors)
    l.contentsMet events d [] = List.replicate 4 "\tx\n".toList ∧
      errors (some ⟨⟨"/.cache"⟩, "", []⟩) = some [0, 0] ∧ errors none = some [0, 1] := by
  decide +kernel

end Linter

end TwigStyle
