import TwigStyle.Proofs.Mended

/-!
# Fixing keeps the lexemes

A fixed file has the lexemes of the file it was, layout apart, unless lexemes of it run together when
the rules close gaps.  The invariant of the passes is that the text has the lexemes of the file and that
none of them run together: a pass changes every gap for a reason, so its text is cut into the same lexemes
again (`tokenize_respace`), and lexemes that run together there ran together before (`sticky_old`).
-/

namespace TwigStyle

/-- Do lexemes of a template run together when the rules close gaps? -/
def Ruleset.joins (rs : Ruleset) (t : Template) : Bool :=
  sticky rs.closing [] (laid t.stream.lexemes).2

/-! ### The end of the file -/

section Sticky

variable {cl : Closing} {before : List Lexeme} {row : List (Lexeme × List Char)}

theorem stickyAt_append (more : List (Lexeme × List Char)) (h : stickyAt cl before row = true) :
    stickyAt cl before (row ++ more) = true := by
  obtain ⟨n, -, hn⟩ := List.any_eq_true.1 h
  rw [Bool.and_eq_true] at hn
  -- The row is as long as what runs together, so nothing of `more` is taken.
  have hlength := length_of_welds hn.1
  rw [List.length_map] at hlength
  refine List.any_eq_true.2 ⟨(row.take n).length, hlength, ?_⟩
  have htake : (row ++ more).take (row.take n).length = row.take n := by
    rw [List.take_append_of_le_length (List.length_take_le' n row)]
    exact (List.prefix_iff_eq_take.1 (List.take_prefix n row)).symm
  rw [htake, hn.1, hn.2]
  rfl

theorem sticky_append (more : List (Lexeme × List Char)) (h : sticky cl before row = true) :
    sticky cl before (row ++ more) = true := by
  induction row generalizing before with
  | nil => cases h
  | cons c row ih =>
    rw [sticky, Bool.or_eq_true] at h
    rw [List.cons_append, sticky, Bool.or_eq_true]
    exact h.imp (stickyAt_append more) ih

theorem laid_concat {e : Lexeme} (he : Lexeme.isLayout e = false) (ls : List Lexeme) :
    laid (ls ++ [e]) = ((laid ls).1, (laid ls).2 ++ [(e, [])]) := by
  induction ls with
  | nil => exact laid_cons_solid he
  | cons l ls ih =>
    rw [List.cons_append]
    cases hl : Lexeme.isLayout l with
    | true => rw [laid_cons_layout hl, laid_cons_layout hl, ih]
    | false => rw [laid_cons_solid hl, laid_cons_solid hl, ih, List.cons_append]

end Sticky

/-- Where every gap changes for a reason and no lexemes run together, the new text is cut into the same
    lexemes, and none of them run together. -/
theorem tokenize_linked {cl : Closing} {source g g' : List Char} {t : Template} {ls : List Lexeme}
    {row : List Cell} (ht : tokenize OperatorTable.default source = .ok t)
    (hls : t.stream.lexemes = ls ++ [(.eof, [])]) (hlaid : laid ls = (g, rowLaid Cell.old row))
    (hgap' : IsGap g') (hlinked : Linked cl [] row)
    (hcells : ∀ c ∈ row, c.lexeme.2 ≠ [] ∧ IsGap c.old ∧ IsGap c.new)
    (hsticky : sticky cl [] (laid ls).2 = false) :
    ∃ t' ls', tokenize OperatorTable.default (g' ++ rowText Cell.new row) = .ok t' ∧
      t'.stream.lexemes = ls' ++ [(.eof, [])] ∧ laid ls' = (g', rowLaid Cell.new row) ∧
      sticky cl [] (laid ls').2 = false := by
  have hseparate := separate_of_apart (tokenize_apart ht hls) hlaid
  rw [hlaid] at hsticky
  have hfits := fits_of_linked hlinked hseparate hcells hsticky
  obtain ⟨t', ls', ht', hls', hlaid'⟩ := tokenize_respace ht hls hlaid hfits hgap'
  refine ⟨t', ls', ht', hls', hlaid', ?_⟩
  rw [hlaid', Bool.eq_false_iff]
  intro hnew
  rw [sticky_old hlinked hnew] at hsticky
  cases hsticky

/-! ### Passes -/

namespace Fixer

variable {rs : Ruleset} {file : SourceFile} {t : Template} {fx fx' : Fixer} {out source : List Char}
  {ls : List Lexeme}

/-- The lexemes of a template without its end of file, with none that run together. -/
def Steady (rs : Ruleset) (source : List Char) (ls : List Lexeme) : Prop :=
  ∃ t ls', tokenize OperatorTable.default source = .ok t ∧
    t.stream.lexemes = ls' ++ [(.eof, [])] ∧ meaningful ls' = ls ∧
    sticky rs.closing [] (laid ls').2 = false

/-- A pass keeps the lexemes, and none run together after it. -/
theorem steady_pass (hrs : ∀ r ∈ rs.rules, r.isBuiltIn = true)
    (hbreak : IsGap fx.buffer.lineBreak) (ht : tokenize OperatorTable.default source = .ok t)
    (h : Steady rs source ls) (file : SourceFile) :
    Steady rs ({ fx with buffer := fx.buffer.startPass }.pass rs file t).buffer.text ls := by
  obtain ⟨t', ls', ht', hls, rfl, hsticky⟩ := h
  obtain rfl : t = t' := Except.ok.inj (ht.symm.trans ht')
  obtain ⟨ls₀, hls₀, -, hsolid⟩ := tokenize_lexemes ht
  obtain rfl : ls₀ = ls' := List.append_cancel_right (hls₀.symm.trans hls)
  obtain ⟨hmade, hholds⟩ := made_pass fx hrs file t
  obtain ⟨g, g', row, hlaid, htext, hgap', hlinked, hcells⟩ :=
    exists_row_of_made hls hsolid (tokenize_gaps ht) hbreak hholds hmade
  obtain ⟨t', ls', ht', hls', hlaid', hsticky'⟩ :=
    tokenize_linked ht hls hlaid hgap' hlinked hcells hsticky
  rw [htext]
  refine ⟨t', ls', ht', hls', ?_, hsticky'⟩
  simp only [meaningful_eq_laid, hlaid, hlaid', rowLaid, List.map_map]
  rfl

theorem steady_passes (hrs : ∀ r ∈ rs.rules, r.isBuiltIn = true)
    (htable : fx.table = OperatorTable.default) (hbreak : IsGap fx.buffer.lineBreak)
    {remaining : Nat} (hsteady : Steady rs source ls)
    (h : passes rs file remaining source fx = (.ok out, fx')) : Steady rs out ls := by
  induction remaining generalizing source fx with
  | zero => cases h
  | succ remaining ih =>
    simp only [passes] at h
    split at h
    · cases h
    · rename_i t ht
      have hbreak' := (content_pass hrs { file with content := source } ht hbreak).2
      split at h
      · cases h
        exact hsteady
      · rw [htable] at ht
        split at h
        · exact ih (by rw [pass_table]; exact htable) (by rw [hbreak']; exact hbreak) hsteady h
        · exact ih (by rw [pass_table]; exact htable) (by rw [hbreak']; exact hbreak)
            (steady_pass hrs hbreak ht hsteady _) h

end Fixer

/-- **Fixing keeps the lexemes.** A fixed file has, layout apart, the lexemes of the file it was, if
    none of them run together when the rules close gaps. -/
theorem fixFile_keeps_lexemes {fx fx' : Fixer} {rs : Ruleset} {file : SourceFile} {t : Template}
    {out : List Char} (hrs : ∀ r ∈ rs.rules, r.isBuiltIn = true)
    (htable : fx.table = OperatorTable.default)
    (ht : tokenize OperatorTable.default file.content = .ok t) (hjoins : rs.joins t = false)
    (h : fx.fixFile rs file = (.ok out, fx')) :
    ∃ t', tokenize OperatorTable.default out = .ok t' ∧
      meaningful t'.stream.lexemes = meaningful t.stream.lexemes := by
  obtain ⟨ls, hls, -, -⟩ := tokenize_lexemes ht
  have hsticky : sticky rs.closing [] (laid ls).2 = false := by
    rw [Bool.eq_false_iff]
    intro hsticky
    rw [Ruleset.joins, hls, laid_concat rfl, sticky_append _ hsticky] at hjoins
    cases hjoins
  let start : Fixer := { fx with buffer := fx.buffer.startFile file.content }
  have htable' : start.table = OperatorTable.default := htable
  obtain ⟨t', ls', ht', hls', hsame, -⟩ := Fixer.steady_passes hrs htable'
    (isGap_lineBreakOf file.content) ⟨t, ls, ht, hls, rfl, hsticky⟩ h
  refine ⟨t', ht', ?_⟩
  rw [hls, hls', meaningful_append, meaningful_append, hsame]

/-- A call, an attribute, a sign and a slice, with the spaces in the wrong places. -/
theorem fixFile_keeps_lexemes_call :
    ∃ t t', tokenize OperatorTable.default "\x7b\x7bf( rows . 0,- 1)[ 1: 2]\x7d\x7d\n".toList = .ok t ∧
      tokenize OperatorTable.default "\x7b\x7b f(rows.0, -1)[1:2] \x7d\x7d\n".toList = .ok t' ∧
      meaningful t'.stream.lexemes = meaningful t.stream.lexemes := by
  have hbuiltIn : ∀ r ∈ Standard.full.rules, r.isBuiltIn = true := by decide
  have hok : (Fixer.fixFile ⟨OperatorTable.default, {}, [], #[]⟩ ⟨Standard.full.rules⟩
      (.alone ⟨"a.twig"⟩ "\x7b\x7bf( rows . 0,- 1)[ 1: 2]\x7d\x7d\n".toList)).1.toOption =
        some "\x7b\x7b f(rows.0, -1)[1:2] \x7d\x7d\n".toList := by decide +kernel
  obtain ⟨t, ht⟩ := exists_ok_of_isOk (x := tokenize OperatorTable.default
    "\x7b\x7bf( rows . 0,- 1)[ 1: 2]\x7d\x7d\n".toList) (by decide +kernel)
  have hjoins : Ruleset.joins ⟨Standard.full.rules⟩ t = false := by
    have hall : (tokenize OperatorTable.default
        "\x7b\x7bf( rows . 0,- 1)[ 1: 2]\x7d\x7d\n".toList).toOption.all
          (fun t => !Ruleset.joins ⟨Standard.full.rules⟩ t) = true := by decide +kernel
    rw [ht] at hall
    simpa [Except.toOption] using hall
  obtain ⟨t', ht', hsame⟩ :=
    fixFile_keeps_lexemes hbuiltIn rfl ht hjoins (Prod.ext (eq_ok_of_toOption hok) rfl)
  exact ⟨t, t', ht, ht', hsame⟩

/-- An attribute of an attribute becomes a fraction when the gap between them is closed. -/
theorem fixFile_joins_fraction :
    (Fixer.fixFile ⟨OperatorTable.default, {}, [], #[]⟩ ⟨Standard.language.rules⟩
        (.alone ⟨"a.twig"⟩ "\x7b\x7b rows.0 .1 \x7d\x7d\n".toList)).1.toOption =
      some "\x7b\x7b rows.0.1 \x7d\x7d\n".toList ∧
    ((tokenize OperatorTable.default "\x7b\x7b rows.0 .1 \x7d\x7d\n".toList).toOption.map
        fun t => meaningful t.stream.lexemes) =
      some [(.variableStart, "\x7b\x7b".toList), (.name, "rows".toList), (.punctuation, ['.']),
        (.number, ['0']), (.punctuation, ['.']), (.number, ['1']),
        (.variableEnd, "\x7d\x7d".toList), (.eof, [])] ∧
    ((tokenize OperatorTable.default "\x7b\x7b rows.0.1 \x7d\x7d\n".toList).toOption.map
        fun t => meaningful t.stream.lexemes) =
      some [(.variableStart, "\x7b\x7b".toList), (.name, "rows".toList), (.punctuation, ['.']),
        (.number, "0.1".toList), (.variableEnd, "\x7d\x7d".toList), (.eof, [])] := by
  decide +kernel

end TwigStyle
