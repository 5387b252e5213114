import TwigStyle.Proofs.Recorded

/-!
# What linting says

Linting a file records the findings of its rules that no directive silences, rule by rule and token by
token (`lint_extends`).  Two consequences:

* Directives are a filter.  A rule does not see them, so whatever they are, the same findings are made
  in the same order, and of these the ones are left out whose id is matched (`lint_suppresses`).

* Fixing agrees.  A pass of the fixer carries out the repairs of the findings that linting records, and
  every finding of a fixable rule has one.  A text is therefore left alone in the first pass exactly if
  linting has nothing to say about it that could be mended (`fixFile_iff_lint`).
-/

namespace TwigStyle

namespace Ruleset

variable {rs : Ruleset} {file : SourceFile} {s : TokenStream} {t : Template} {report : Report}
  {directives : List ViolationId} {v : Violation}

/-! ### What is recorded -/

theorem mem_violations : v ∈ rs.violations file s directives ↔
    ∃ r ∈ rs.rules, r.appliesTo file = true ∧ ∃ f ∈ r.findings s,
      f.isSilenced directives r.name = false ∧ v = f.violation r.name file.path := by
  simp only [violations, violationsOf, Rule.lintFindings, List.mem_flatMap, List.mem_map,
    List.mem_filter]
  constructor
  · rintro ⟨r, hr, f, ⟨hf, hloud⟩, rfl⟩
    split at hf
    · exact ⟨r, hr, by assumption, f, hf, by simpa using hloud, rfl⟩
    · cases hf
  · rintro ⟨r, hr, happlies, f, hf, hloud, rfl⟩
    refine ⟨r, hr, f, ⟨?_, by simpa using hloud⟩, rfl⟩
    rw [if_pos happlies]
    exact hf

/-- Linting a file that the report covers records the violations of the file. -/
theorem lint_extends (rs : Ruleset) (t : Template) (h : report.covers file.path = true) :
    ∃ report', rs.lint file t report = .ok report' ∧
      report.Extends report' (rs.violations file t.stream t.directives) := by
  have hcovers : ∀ v ∈ rs.violations file t.stream t.directives, report.covers v.file = true := by
    intro v hv
    obtain ⟨r, -, -, f, -, -, rfl⟩ := mem_violations.1 hv
    exact h
  obtain ⟨report', hadd, -⟩ := Report.addAll_ok hcovers
  refine ⟨report', ?_, (Report.extends_of_addAll hadd).1⟩
  rw [lint, if_pos h]
  exact hadd

/-! ### Directives -/

theorem name_ne_of_isFixable {r : Rule} (hbuiltIn : r.isBuiltIn = true)
    (h : r.isFixable = true) : r.name ≠ "VariableName" := by
  induction r with
  | variableName => cases h
  | rename | marker | spacing | script => cases hbuiltIn
  | onPaths inner globs ih => exact ih hbuiltIn h
  | _ => exact of_decide_eq_true rfl

/-- There is something to repair exactly if a fixable rule has something to say. -/
theorem repairs_eq_nil_iff (hrs : ∀ r ∈ rs.rules, r.isBuiltIn = true) :
    rs.repairs file t = [] ↔ ∀ v ∈ rs.violations file t.stream t.directives,
      ∀ r ∈ rs.rules, r.isFixable = true → v.rule ≠ some r.name := by
  constructor
  · intro hnil v hv r hr hfixable hrule
    rw [(rule_of_mem_violations hrs hnil hv).1] at hrule
    exact name_ne_of_isFixable (hrs r hr) hfixable (Option.some.inj hrule).symm
  · intro hnone
    apply List.flatMap_eq_nil_iff.2
    intro r hr
    obtain ⟨hr, happlies⟩ := List.mem_filter.1 hr
    obtain ⟨hr, hfixable⟩ := List.mem_filter.1 hr
    apply List.map_eq_nil_iff.2
    apply List.filter_eq_nil_iff.2
    intro f hf hloud
    have hv : f.violation r.name file.path ∈ rs.violations file t.stream t.directives :=
      mem_violations.2 ⟨r, hr, happlies, f, hf, by simpa using hloud, rfl⟩
    exact hnone _ hv r hr hfixable rfl

end Ruleset

theorem Report.Extends.allViolations {p : Path} {r : Report} {vs : List Violation}
    (h : (Report.empty [p]).Extends r vs) (hvs : ∀ v ∈ vs, v.file = p) :
    r.allViolations none = vs := by
  have hpaths : r.paths = [p] := h.paths
  have hsorted : r.Sorted := by
    rw [Report.Sorted, hpaths]
    exact List.pairwise_singleton _ _
  have hown : (vs.filter fun v => v.file.same p) = vs := by
    refine List.filter_eq_self.2 fun v hv => ?_
    rw [hvs v hv]
    exact Path.same_refl p
  have hviolations := h.violations p
  rw [hown, Report.violationsOf?_empty List.mem_cons_self] at hviolations
  rw [Report.allViolations, Report.files_eq hsorted, hpaths]
  simp [hviolations, Severity.atLeast]

/-- **Linting and fixing agree.** A text that can be cut into tokens is left alone in one pass exactly if
    linting it, with its own directives, records no violation of a fixable rule. -/
theorem fixFile_iff_lint {fx : Fixer} {rs : Ruleset} {file : SourceFile} {t : Template}
    (hrs : ∀ r ∈ rs.rules, r.isBuiltIn = true) (ht : tokenize fx.table file.content = .ok t) :
    (∃ fx', fx.fixFile rs file = (.ok file.content, fx') ∧ fx'.buffer.passes = 1) ↔
      ∃ report, rs.lint file t (.empty [file.path]) = .ok report ∧
        ∀ v ∈ report.allViolations none, ∀ r ∈ rs.rules, r.isFixable = true →
          v.rule ≠ some r.name := by
  obtain ⟨report, hreport, hextends⟩ :=
    Ruleset.lint_extends rs t (Report.covers_empty (List.mem_singleton_self file.path))
  have hall : report.allViolations none = rs.violations file t.stream t.directives := by
    apply hextends.allViolations
    intro v hv
    obtain ⟨r, -, -, f, -, -, rfl⟩ := Ruleset.mem_violations.1 hv
    rfl
  constructor
  · rintro ⟨fx', hfix, -⟩
    obtain ⟨t', ht', hnil⟩ := Fixer.repairs_of_passes_ok hrs hfix
    obtain rfl : t = t' := Except.ok.inj (ht.symm.trans ht')
    refine ⟨report, hreport, ?_⟩
    rw [hall]
    exact (Ruleset.repairs_eq_nil_iff hrs).1 hnil
  · rintro ⟨report', hreport', hnone⟩
    obtain rfl : report = report' := Except.ok.inj (hreport.symm.trans hreport')
    rw [hall] at hnone
    have hnil : rs.repairs file t = [] := (Ruleset.repairs_eq_nil_iff hrs).2 hnone
    let start : Fixer := { fx with buffer := fx.buffer.startFile file.content }
    have ht' : tokenize start.table file.content = .ok t := ht
    exact Fixer.passes_of_repairs_nil hrs ht' hnil

/-- A variable without spaces that a comment excuses: linting is silent, and so is fixing. -/
theorem fixFile_iff_lint_excused :
    ∃ t, tokenize OperatorTable.default
        "\x7b# twig-cs-fixer-disable DelimiterSpacing #\x7d\x7b\x7ba\x7d\x7d\n".toList = .ok t ∧
      ∃ fx', Fixer.fixFile ⟨OperatorTable.default, {}, [], #[]⟩ ⟨Standard.full.rules⟩
          (.alone ⟨"a.twig"⟩
            "\x7b# twig-cs-fixer-disable DelimiterSpacing #\x7d\x7b\x7ba\x7d\x7d\n".toList) =
        (.ok "\x7b# twig-cs-fixer-disable DelimiterSpacing #\x7d\x7b\x7ba\x7d\x7d\n".toList, fx') ∧
        fx'.buffer.passes = 1 := by
  have hbuiltIn : ∀ r ∈ Standard.full.rules, r.isBuiltIn = true := by decide
  obtain ⟨t, ht⟩ := exists_ok_of_isOk (x := tokenize OperatorTable.default
    "\x7b# twig-cs-fixer-disable DelimiterSpacing #\x7d\x7b\x7ba\x7d\x7d\n".toList)
    (by decide +kernel)
  have hsilent : ((tokenize OperatorTable.default
      "\x7b# twig-cs-fixer-disable DelimiterSpacing #\x7d\x7b\x7ba\x7d\x7d\n".toList).toOption.bind
      fun t => (Ruleset.lint ⟨Standard.full.rules⟩ (.alone ⟨"a.twig"⟩
        "\x7b# twig-cs-fixer-disable DelimiterSpacing #\x7d\x7b\x7ba\x7d\x7d\n".toList) t
        (.empty [⟨"a.twig"⟩])).toOption.map fun r => r.allViolations none) = some [] := by
    decide +kernel
  rw [ht] at hsilent
  obtain ⟨report, hreport, hnone⟩ := Option.map_eq_some_iff.1 hsilent
  refine ⟨t, ht, (fixFile_iff_lint hbuiltIn ht).2 ⟨report, eq_ok_of_toOption hreport, ?_⟩⟩
  rw [hnone]
  exact nofun

end TwigStyle
