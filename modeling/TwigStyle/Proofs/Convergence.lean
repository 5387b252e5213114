import TwigStyle.Proofs.Lines
import TwigStyle.Proofs.Oscillation
import TwigStyle.Proofs.Silence

/-!
# When fixing comes to an end

Passes without a conflict clean a file step by step: after three of them every gap has the width that is
wanted and the lines are clean but for the end of the file, which the fourth makes right
(`Ruleset.Step.settled`).  Only a gap of which different widths are wanted is never right.  So a file is
fixed if there is no such gap (`Fixer.Bound.converges`), and passes go on without end if there is one
(`Fixer.Bound.endless`).
-/

namespace TwigStyle

/-! ### Gaps in dispute -/

namespace Ruleset

variable {rs : Ruleset} {s s' : TokenStream}

/-- Different widths are wanted of the gap behind a token, and there is no line break in it. -/
def disputesAt (rs : Ruleset) (s : TokenStream) (i : Nat) : Bool :=
  !s.kindIn i TokenKind.layout &&
    match s.nextOutside TokenKind.layout (i + 1) with
    | none => false
    | some j => !hasBreak (s.gapText i j) &&
      (rs.wants s i j).any fun w => (rs.wants s i j).any (· != w)

/-- Is there a gap of which different widths are wanted? -/
def disputes (rs : Ruleset) (s : TokenStream) : Bool := (List.range s.size).any (rs.disputesAt s)

theorem disputesAt_eq_true_iff {i : Nat} (hi : i < s.size) :
    rs.disputesAt s i = true ↔ ∃ j x y, s.Neighbours i j x y ∧ hasBreak (s.gapText i j) = false ∧
      ∃ w ∈ rs.wants s i j, ∃ w' ∈ rs.wants s i j, w' ≠ w := by
  obtain ⟨x, hx⟩ := TokenStream.exists_get? hi
  have hsolid : ∀ {j} {z : Token}, s.get? j = some z →
      (Lexeme.isLayout z.lexeme = s.kindIn j TokenKind.layout) := by
    intro j z hz
    rw [TokenStream.kindIn_of_get? hz]
    rfl
  constructor
  · intro h
    rw [disputesAt, Bool.and_eq_true, Bool.not_eq_true'] at h
    obtain ⟨hleft, h⟩ := h
    split at h
    · cases h
    · rename_i j hj
      obtain ⟨hij, ⟨y, hy, hout⟩, hbetween⟩ := TokenStream.nextOutside_eq_some_iff.1 hj
      simp only [Bool.and_eq_true, Bool.not_eq_true', List.any_eq_true, bne_iff_ne] at h
      refine ⟨j, x, y, ⟨hij, hx, hy, ?_, ?_, hbetween⟩, h.1, h.2⟩
      · rw [hsolid hx, hleft]
      · exact Bool.eq_false_iff.2 fun hl => hout (List.contains_iff_mem.1 hl)
  · rintro ⟨j, x', y, hn, hbreak, w, hw, w', hw', hne⟩
    rw [disputesAt, hn.nextOutside, ← hsolid hn.left, hn.solidLeft]
    simp only [hbreak, Bool.not_false, Bool.true_and, List.any_eq_true, bne_iff_ne]
    exact ⟨w, hw, w', hw', hne⟩

theorem disputes_eq_false_iff (hs : s.Regular) : rs.disputes s = false ↔ rs.Agreed s := by
  rw [disputes, List.any_eq_false]
  constructor
  · rintro hnone n hn hbreak side side' w w' ⟨i, j, x, y, hij, rfl, hw⟩ ⟨i', j', x', y', hij', hi, hw'⟩
    obtain rfl := hij.eq_of_length hij' hi.symm
    obtain rfl := hij.right_unique hij'
    apply Classical.byContradiction
    intro hne
    have hlt := TokenStream.get?_lt hij.left
    refine hnone i (List.mem_range.2 hlt) ((disputesAt_eq_true_iff hlt).2
      ⟨j, x, y, hij, ?_, w', mem_wants.2 ⟨side', hw'⟩, w, mem_wants.2 ⟨side, hw⟩, hne⟩)
    rwa [← hij.gapAt_eq]
  · intro hagreed i hi h
    obtain ⟨j, x, y, hn, hbreak, w, hw, w', hw', hne⟩ :=
      (disputesAt_eq_true_iff (List.mem_range.1 hi)).1 h
    have hinner : (s.before i).length + 2 < s.count := by
      refine hn.lt_count hs fun hy => ?_
      rw [wants_of_eof hs hn hy] at hw
      cases hw
    rw [← hn.gapAt_eq] at hbreak
    obtain ⟨side, hw⟩ := mem_wants.1 hw
    obtain ⟨side', hw'⟩ := mem_wants.1 hw'
    exact hne (hagreed _ hinner hbreak side' side w' w ⟨i, j, x, y, hn, rfl, hw'⟩
      ⟨i, j, x, y, hn, rfl, hw⟩)

/-! ### Steps -/

/-- Nothing is left to be done. -/
structure Settled (rs : Ruleset) (s : TokenStream) : Prop where
  aligned : rs.Aligned s
  untabbed : rs.Untabbed s
  trimmed : rs.Trimmed s
  closed : rs.Closed s

theorem Settled.not_proposed (h : rs.Settled s) (hs : s.Regular) (lineBreak : List Char)
    (ch : Change) : ¬rs.Proposed s lineBreak ch := by
  rw [proposed_iff hs]
  rintro (hch | hch)
  · exact (aligned_iff hs).1 h.aligned ch hch
  · exact not_realigns hs h.untabbed h.trimmed h.closed ch hch

/-- What a pass without a conflict makes of a template. -/
structure Step (rs : Ruleset) (s s' : TokenStream) : Prop extends Advances rs s s' where
  untabbed : rs.Untabbed s'
  trimmed : rs.Untabbed s → rs.Trimmed s'
  closed : rs.Untabbed s → rs.Trimmed s → rs.Aligned s → ¬rs.Closed s → rs.Closed s'
  atOnce : rs.OneSided s → rs.Aligned s'

/-- **Three passes leave only the end of the file**, and a fourth one makes it right. -/
theorem Step.settled {s₀ s₁ s₂ s₃ : TokenStream} (h₁ : Step rs s₀ s₁) (h₂ : Step rs s₁ s₂)
    (h₃ : Step rs s₂ s₃) (hagreed : rs.Agreed s₀) :
    rs.Settled s₃ ∨ ∀ s₄, Step rs s₃ s₄ → rs.Settled s₄ := by
  have haligned := Advances.aligned_of_agreed h₁.toAdvances h₂.toAdvances h₃.toAdvances hagreed
  have htrimmed := h₃.trimmed h₂.untabbed
  by_cases hclosed : rs.Closed s₃
  · exact .inl ⟨haligned, h₃.untabbed, htrimmed, hclosed⟩
  · refine .inr fun s₄ h₄ => ⟨h₄.aligned haligned, h₄.untabbed, h₄.trimmed h₃.untabbed, ?_⟩
    exact h₄.closed h₃.untabbed htrimmed haligned hclosed

end Ruleset

theorem Passed.step {rs : Ruleset} {s s' : TokenStream} {lineBreak : List Char} {b : EditBuffer}
    {ps : List Piece} (h : Passed rs s lineBreak b) (hr : Renewal rs s lineBreak b ps s')
    (hs' : s'.Regular) : rs.Step s s' where
  toProgress := h.progress hr
  regular := h.regular
  regular' := hs'
  untabbed := h.untabbed hr hs'
  trimmed := h.trimmed hr hs'
  closed huntabbed htrimmed haligned :=
    h.closed hr hs' huntabbed htrimmed ((Ruleset.aligned_iff h.regular).1 haligned)
  atOnce := h.aligned_of_oneSided hr hs'

/-! ### Pass after pass -/

namespace Fixer

variable {rs : Ruleset} {file : SourceFile} {fx : Fixer} {content : List Char} {t : Template}

/-- The fixer can go on with the text, nothing is silenced in it and no lexemes of it run together. -/
structure Bound (fx : Fixer) (rs : Ruleset) (content : List Char) (t : Template) : Prop
    extends fx.Ready content t where
  table : fx.table = OperatorTable.default
  isBreak : fx.buffer.lineBreak ∈ [['\n'], ['\r'], ['\r', '\n']]
  directives : t.directives = []
  unjoined : rs.Unjoined t

section

variable (h : fx.Bound rs content t)
include h

theorem Bound.tokenized : tokenize OperatorTable.default content = .ok t := by
  rw [← h.table]
  exact h.template

theorem Bound.retry (hrs : ∀ r ∈ rs.rules, r.isBuiltIn = true) (file : SourceFile) :
    (fx.next rs file t).Bound rs content t := by
  refine ⟨h.toReady.next hrs file, ?_, ?_, h.directives, h.unjoined⟩
  · rw [next_table]
    exact h.table
  · rw [h.toReady.lineBreak_next hrs]
    exact h.isBreak

theorem Bound.passed (hrs : ∀ r ∈ rs.rules, r.isBuiltIn = true)
    (happlies : ∀ r ∈ rs.rules, r.appliesTo file = true)
    (hconflict : (fx.next rs file t).buffer.inConflict = false) :
    Passed rs t.stream fx.buffer.lineBreak (fx.next rs file t).buffer := by
  obtain ⟨hmade, hholds⟩ := made_pass fx hrs file t
  exact ⟨tokenize_regular h.template, h.isBreak, hholds, hmade,
    fun hch => tried_pass fx hrs file t happlies h.directives hconflict hch⟩

/-- A pass without a conflict is a step to a text with which the fixer can go on. -/
theorem Bound.next (hrs : ∀ r ∈ rs.rules, r.isBuiltIn = true)
    (happlies : ∀ r ∈ rs.rules, r.appliesTo file = true)
    (hconflict : (fx.next rs file t).buffer.inConflict = false) :
    ∃ t', (fx.next rs file t).Bound rs (fx.next rs file t).buffer.text t' ∧
      rs.Step t.stream t'.stream := by
  have hpassed := h.passed hrs happlies hconflict
  obtain ⟨t', ps, ht', hunjoined, hr⟩ := hpassed.exists_renewal h.tokenized h.unjoined
  have hretry := h.retry hrs file
  have hstep := hpassed.step hr (tokenize_regular ht')
  refine ⟨t', ⟨⟨?_, hretry.lineBreak, hretry.past⟩, hretry.table, hretry.isBreak, ?_, hunjoined⟩, hstep⟩
  · rw [hretry.table]
    exact ht'
  · rw [tokenize_directives ht', hstep.lexemes, ← tokenize_directives h.template]
    exact h.directives

theorem Bound.repairs_eq_nil_iff (hrs : ∀ r ∈ rs.rules, r.isBuiltIn = true)
    (happlies : ∀ r ∈ rs.rules, r.appliesTo file = true) :
    rs.repairs file t = [] ↔ ∀ ch, ¬rs.Proposed t.stream fx.buffer.lineBreak ch := by
  constructor
  · rintro hnil ch ⟨r, hr, hch⟩
    obtain ⟨cmds, hmem, -⟩ := exists_repair hr (happlies r hr) h.directives hch
    rw [hnil] at hmem
    cases hmem
  · intro hnone
    rw [List.eq_nil_iff_forall_not_mem]
    intro cmds hcmds
    obtain ⟨r, hr, -, ch, hch, -⟩ := exists_of_mem_repairs hrs hcmds fx.buffer.lineBreak
    exact hnone ch ⟨r, hr, hch⟩

end

/-- Fixing the text ends well within any number of passes from `n` on. -/
def Converges (rs : Ruleset) (file : SourceFile) (n : Nat) (content : List Char) (fx : Fixer) :
    Prop :=
  ∀ m, n ≤ m → ∃ out fx', passes rs file m content fx = (.ok out, fx')

theorem bound_startFile (htable : fx.table = OperatorTable.default)
    (ht : tokenize OperatorTable.default content = .ok t) (hdirectives : t.directives = [])
    (hunjoined : rs.Unjoined t) :
    Bound { fx with buffer := fx.buffer.startFile content } rs content t where
  template := by
    rw [← ht, ← htable]
  lineBreak := isGap_lineBreakOf content
  past := by
    intro i w hw
    rw [EditBuffer.lastWriting?_startFile] at hw
    cases hw
  table := htable
  isBreak := lineBreakOf_mem content
  directives := hdirectives
  unjoined := hunjoined

section Run

variable (hrs : ∀ r ∈ rs.rules, r.isBuiltIn = true)
  (happlies : ∀ r ∈ rs.rules, ∀ file, r.appliesTo file = true)

include hrs happlies

section

variable (h : fx.Bound rs content t)
include h

theorem Bound.passes_of_settled (hsettled : rs.Settled t.stream) (remaining : Nat) :
    ∃ fx', passes rs file (remaining + 1) content fx = (.ok content, fx') ∧
      fx'.buffer.passes = fx.buffer.passes + 1 := by
  refine passes_of_repairs_nil hrs h.template ?_
  exact (h.repairs_eq_nil_iff hrs fun r hr => happlies r hr _).2
    (hsettled.not_proposed (tokenize_regular h.template) _)

theorem Bound.converges_of_settled (hsettled : rs.Settled t.stream) :
    Converges rs file 1 content fx := by
  intro m hm
  obtain ⟨remaining, rfl⟩ : ∃ remaining, m = remaining + 1 := ⟨m - 1, by omega⟩
  obtain ⟨fx', hpasses, -⟩ := h.passes_of_settled hrs happlies hsettled remaining
  exact ⟨content, fx', hpasses⟩

/-- There are at most three passes in conflict before a step, and the text is fixed if it is fixed after
    the step. -/
theorem Bound.converges_of_step {n : Nat}
    (hnext : ∀ fx' content' t', Bound fx' rs content' t' → rs.Step t.stream t'.stream →
      Converges rs file n content' fx') :
    Converges rs file (n + 4) content fx := by
  intro m hm
  obtain ⟨fx₁, k, hk, hready, htable, hbreak, hconflict, hpasses⟩ := settles hrs h.toReady file
  obtain ⟨remaining, rfl⟩ : ∃ remaining, m = remaining + k + 1 := ⟨m - k - 1, by omega⟩
  have hbound : fx₁.Bound rs content t := by
    refine ⟨hready, ?_, ?_, h.directives, h.unjoined⟩
    · rw [htable, h.table]
    · rw [hbreak]
      exact h.isBreak
  -- After `k` passes in conflict nothing is known to have been written, and the next pass goes through.
  rw [hpasses, passes_succ hready.template]
  split
  · exact ⟨_, _, rfl⟩
  · obtain ⟨t', hbound', hstep⟩ := hbound.next hrs (fun r hr => happlies r hr _) hconflict
    rw [if_neg (by rw [hconflict]; exact nofun)]
    exact hnext _ _ _ hbound' hstep remaining (by omega)

/-- **Fixing comes to an end** if no gap is in dispute. -/
theorem Bound.converges (hagreed : rs.Agreed t.stream) : Converges rs file 17 content fx := by
  refine h.converges_of_step hrs happlies fun fx₁ content₁ t₁ hbound₁ hstep₁ => ?_
  refine hbound₁.converges_of_step hrs happlies fun fx₂ content₂ t₂ hbound₂ hstep₂ => ?_
  refine hbound₂.converges_of_step hrs happlies fun fx₃ content₃ t₃ hbound₃ hstep₃ => ?_
  rcases hstep₁.settled hstep₂ hstep₃ hagreed with hsettled | hsettles
  · exact fun m hm => hbound₃.converges_of_settled hrs happlies hsettled m (by omega)
  · refine hbound₃.converges_of_step hrs happlies fun fx₄ content₄ t₄ hbound₄ hstep₄ => ?_
    exact hbound₄.converges_of_settled hrs happlies (hsettles _ hstep₄)

/-- **A gap in dispute is never right**, however many passes there are. -/
theorem Bound.endless (hdispute : ¬rs.Agreed t.stream) (n : Nat) :
    (passes rs file n content fx).1 = .error (.endless (fx.buffer.passes + n)) := by
  induction n generalizing fx content t with
  | zero => rfl
  | succ n ih =>
    have happlies' : ∀ r ∈ rs.rules, r.appliesTo { file with content } = true :=
      fun r hr => happlies r hr _
    have hcount : (fx.next rs { file with content } t).buffer.passes = fx.buffer.passes + 1 :=
      next_passes hrs fx
    -- A pass that changes nothing would have left every gap as it is wanted.
    have hloud : ¬(fx.next rs { file with content } t).buffer.isQuiet = true := by
      intro hquiet
      have hnone := (h.repairs_eq_nil_iff hrs happlies').1 ((isQuiet_pass_iff hrs).1 hquiet)
      have hs := tokenize_regular h.template
      refine hdispute (Ruleset.Aligned.agreed ((Ruleset.aligned_iff hs).2 fun ch hch => ?_))
      exact hnone ch ((Ruleset.proposed_iff hs).2 (.inl hch))
    have hpasses : fx.buffer.passes + (n + 1) =
        (fx.next rs { file with content } t).buffer.passes + n := by omega
    rw [passes_succ h.template, if_neg hloud, hpasses]
    cases hconflict : (fx.next rs { file with content } t).buffer.inConflict with
    | true =>
      rw [if_pos rfl]
      exact ih (h.retry hrs _) hdispute
    | false =>
      rw [if_neg nofun]
      obtain ⟨t', hbound, hstep⟩ := h.next hrs happlies' hconflict
      exact ih hbound (mt hstep.agreed_iff.1 hdispute)

end

section

variable (htable : fx.table = OperatorTable.default)
  (ht : tokenize OperatorTable.default file.content = .ok t) (hdirectives : t.directives = [])
  (hjoins : rs.joins t = false)
include htable ht hdirectives hjoins

/-- **A file without gaps in dispute is fixed.** -/
theorem fixFile_converges (hnone : rs.disputes t.stream = false) :
    ∃ out, (fx.fixFile rs file).1 = .ok out := by
  have hbound := bound_startFile htable ht hdirectives (Ruleset.unjoined_of_joins ht hjoins)
  have hagreed := (Ruleset.disputes_eq_false_iff (tokenize_regular ht)).1 hnone
  obtain ⟨out, fx', hpasses⟩ := hbound.converges hrs happlies hagreed maxPasses (by decide)
  exact ⟨out, congrArg Prod.fst hpasses⟩

/-- **A file with a gap in dispute is given up** after the greatest number of passes. -/
theorem fixFile_endless (hsome : rs.disputes t.stream = true) :
    (fx.fixFile rs file).1 = .error (.endless maxPasses) := by
  have hbound := bound_startFile htable ht hdirectives (Ruleset.unjoined_of_joins ht hjoins)
  have hdispute : ¬rs.Agreed t.stream := by
    rw [← Ruleset.disputes_eq_false_iff (tokenize_regular ht), hsome]
    exact nofun
  exact hbound.endless hrs happlies hdispute maxPasses

end

end Run

end Fixer

/-! ### The standards -/

theorem Standard.isBuiltIn_of_mem (standard : Standard) : ∀ r ∈ standard.rules, r.isBuiltIn = true := by
  cases standard <;> decide

theorem Standard.appliesTo_of_mem (standard : Standard) :
    ∀ r ∈ standard.rules, ∀ file, r.appliesTo file = true := by
  cases standard <;> simp [rules, languageRules, lineRules, Rule.appliesTo]

/-- **The standards converge but for gaps in dispute.** If nothing is silenced and no lexemes run
    together, a file is fixed unless its tokens want different widths of a gap; then every pass changes
    the gap once more, until there have been too many of them. -/
theorem standard_converges {fx : Fixer} {file : SourceFile} {t : Template} (standard : Standard)
    (htable : fx.table = OperatorTable.default)
    (ht : tokenize OperatorTable.default file.content = .ok t) (hdirectives : t.directives = [])
    (hjoins : Ruleset.joins ⟨standard.rules⟩ t = false) :
    (Ruleset.disputes ⟨standard.rules⟩ t.stream = false →
      ∃ out, (fx.fixFile ⟨standard.rules⟩ file).1 = .ok out) ∧
    (Ruleset.disputes ⟨standard.rules⟩ t.stream = true →
      (fx.fixFile ⟨standard.rules⟩ file).1 = .error (.endless maxPasses)) := by
  constructor
  · exact Fixer.fixFile_converges standard.isBuiltIn_of_mem standard.appliesTo_of_mem htable ht
      hdirectives hjoins
  · exact Fixer.fixFile_endless standard.isBuiltIn_of_mem standard.appliesTo_of_mem htable ht
      hdirectives hjoins

theorem exists_ok_of_any {ε α : Type} {x : Except ε α} {p : α → Bool}
    (h : x.toOption.any p = true) : ∃ a, x = .ok a ∧ p a = true := by
  cases x with
  | error e => cases h
  | ok a => exact ⟨a, rfl, h⟩

/-- A tab, a list, a concatenation and a comment are fixed, and a list with a comma at its end is not. -/
theorem standard_converges_list :
    (∃ out, (Fixer.fixFile ⟨OperatorTable.default, {}, [], #[]⟩ ⟨Standard.full.rules⟩ (.alone ⟨"a.twig"⟩
      "\t\x7b\x7b[ 1 ,2]~x\x7d\x7d  \n\x7b#a#\x7d\n\n".toList)).1 = .ok out) ∧
    (Fixer.fixFile ⟨OperatorTable.default, {}, [], #[]⟩ ⟨Standard.full.rules⟩ (.alone ⟨"a.twig"⟩
      "\x7b\x7b [1,] \x7d\x7d\n".toList)).1 = .error (.endless maxPasses) := by
  have hlist : (tokenize OperatorTable.default
      "\t\x7b\x7b[ 1 ,2]~x\x7d\x7d  \n\x7b#a#\x7d\n\n".toList).toOption.any (fun t =>
        t.directives.isEmpty && !Ruleset.joins ⟨Standard.full.rules⟩ t &&
          !Ruleset.disputes ⟨Standard.full.rules⟩ t.stream) = true := by decide +kernel
  have hcomma : (tokenize OperatorTable.default
      "\x7b\x7b [1,] \x7d\x7d\n".toList).toOption.any (fun t =>
        t.directives.isEmpty && !Ruleset.joins ⟨Standard.full.rules⟩ t &&
          Ruleset.disputes ⟨Standard.full.rules⟩ t.stream) = true := by decide +kernel
  obtain ⟨t, ht, hlist⟩ := exists_ok_of_any hlist
  obtain ⟨t', ht', hcomma⟩ := exists_ok_of_any hcomma
  simp only [Bool.and_eq_true, Bool.not_eq_true', List.isEmpty_iff] at hlist hcomma
  exact ⟨(standard_converges .full rfl ht hlist.1.1 hlist.1.2).1 hlist.2,
    (standard_converges .full rfl ht' hcomma.1.1 hcomma.1.2).2 hcomma.2⟩

/-- One space is wanted behind a comma and none before a bracket. -/
theorem fixFile_disputes_list :
    (tokenize OperatorTable.default "\x7b\x7b [1,] \x7d\x7d\n".toList).isOk = true ∧
    ∀ standard : Standard, (Fixer.fixFile ⟨OperatorTable.default, {}, [], #[]⟩ ⟨standard.rules⟩
      (.alone ⟨"a.twig"⟩ "\x7b\x7b [1,] \x7d\x7d\n".toList)).1 = .error (.endless maxPasses) := by
  refine ⟨by decide +kernel, fun standard => ?_⟩
  have hcomma : (tokenize OperatorTable.default
      "\x7b\x7b [1,] \x7d\x7d\n".toList).toOption.any (fun t =>
        t.directives.isEmpty && !Ruleset.joins ⟨standard.rules⟩ t &&
          Ruleset.disputes ⟨standard.rules⟩ t.stream) = true := by
    cases standard <;> decide +kernel
  obtain ⟨t, ht, hcomma⟩ := exists_ok_of_any hcomma
  simp only [Bool.and_eq_true, Bool.not_eq_true', List.isEmpty_iff] at hcomma
  exact Fixer.fixFile_endless standard.isBuiltIn_of_mem standard.appliesTo_of_mem rfl ht
    hcomma.1.1 hcomma.1.2 hcomma.2

end TwigStyle
