import TwigStyle.Output.Basic
import TwigStyle.Proofs.Conventions
import TwigStyle.Proofs.Failures
import TwigStyle.Proofs.Trailing
import TwigStyle.Proofs.Transparency
import TwigStyle.Proofs.Verdicts

/-!
# One line for each violation

The compact format writes a line for each violation and relies on messages that hold no line feed.
Nearly all of them do: what a message quotes is a name, a bracket, a delimiter or the character at
which cutting stopped.  The exception are operators of several words, between which a line may end,
so that a message about the spaces around `not in` can go over two lines.

`run_compact_lines` says how many line feeds there are for every run, and that there is one for each
violation just if no such operator is quoted.
-/

namespace TwigStyle

variable {message : String}

/-! ### Texts without a line feed -/

/-- A text without a line feed. -/
def OneLine (s : String) : Prop := '\n' ∉ s.toList

instance (s : String) : Decidable (OneLine s) := inferInstanceAs (Decidable (¬_))

theorem oneLine_append {s t : String} : OneLine (s ++ t) ↔ OneLine s ∧ OneLine t := by
  simp [OneLine]

/-- A literal is such a list, and is decided so without decoding its bytes. -/
theorem oneLine_ofList {t : List Char} : OneLine (String.ofList t) ↔ '\n' ∉ t := by
  simp [OneLine]

theorem oneLine_singleton {c : Char} : OneLine (String.singleton c) ↔ c ≠ '\n' := by
  simp [OneLine, eq_comm]

theorem oneLine_repr (n : Nat) : OneLine n.repr := by
  unfold OneLine
  rw [Nat.toList_repr]
  intro hmem
  have hdigit := Nat.isDigit_of_mem_toDigits (by decide) (by decide) hmem
  exact absurd hdigit (by decide)

theorem oneLine_numbered {before after : String} (hbefore : OneLine before) (n : Nat)
    (hafter : OneLine after) : OneLine (before ++ n.repr ++ after) :=
  oneLine_append.2 ⟨oneLine_append.2 ⟨hbefore, oneLine_repr n⟩, hafter⟩

/-! ### Failures -/

namespace Lexer

variable {s : Lexer} {table : OperatorTable} {frame : Frame} {outer : List Frame} {c : Char}
  {t : List Char} {e : LexError} {f : LexFailure}

theorem solid_of_inside_error (h : s.inside table frame outer c t = .error e) :
    Text.isLayout c = false := by
  have hexpression (h : s.expression table frame outer c t = .error e) :
      Text.isLayout c = false := by
    cases hc : Text.isLayout c with
    | false => rfl
    | true => simp [expression, layout?, hc] at h
  by_cases hframe : frame = .quote
  · subst hframe
    simp only [inside] at h
    split at h
    · cases h
    · split at h <;> cases h
  · rw [inside_of_ne_quote hframe] at h
    split at h
    · cases h
    · exact hexpression h

theorem oneLine_of_inside_error (h : s.inside table frame outer c t = .error e) :
    OneLine e.message := by
  have hc : c ≠ '\n' := by
    rintro rfl
    exact absurd (solid_of_inside_error h) (by decide)
  have hquoted {before : String} (hbefore : OneLine before) {d : Char} (hd : d ≠ '\n')
      (line : Nat) :
      OneLine (before ++ String.singleton d ++ "\" at line " ++ line.repr ++ ".") := by
    apply oneLine_numbered ?_ line (by decide)
    simp only [oneLine_append, oneLine_singleton]
    exact ⟨⟨hbefore, hd⟩, oneLine_ofList.2 (by decide)⟩
  cases Fails.of_inside h with
  | character => exact hquoted (oneLine_ofList.2 (by decide)) hc _
  | closed => exact hquoted (oneLine_ofList.2 (by decide)) hc _
  | @mismatched _ b => exact hquoted (oneLine_ofList.2 (by decide)) (by cases b.shape <;> decide) _

theorem oneLine_of_step_error (h : s.step table c t = .error f) : OneLine f.error.message := by
  unfold step at h
  split at h
  · obtain ⟨before, value, after, -, -, rfl⟩ := data_error h
    change OneLine ("Unclosed comment at line " ++ Nat.repr _ ++ ".")
    exact oneLine_numbered (oneLine_ofList.2 (by decide)) _ (by decide)
  · split at h
    · rename_i e he
      cases h
      exact oneLine_of_inside_error he
    · cases h

theorem oneLine_of_finish_error (h : s.finish = .error f) : OneLine f.error.message := by
  unfold finish at h
  simp only at h
  split at h
  · cases h
  · rename_i frame outer hframes
    cases h
    have hlabel : OneLine frame.label := by
      cases frame <;> exact oneLine_ofList.2 (by decide)
    change OneLine ("Unexpected end of file inside " ++ frame.label ++ " at line " ++
      Nat.repr _ ++ ".")
    apply oneLine_numbered ?_ _ (by decide)
    simp only [oneLine_append]
    exact ⟨⟨oneLine_ofList.2 (by decide), hlabel⟩, oneLine_ofList.2 (by decide)⟩

end Lexer

theorem oneLine_of_tokenize_error {table : OperatorTable} {source : List Char} {e : LexError}
    (h : tokenize table source = .error e) : OneLine e.message := by
  obtain ⟨f, -, rfl, ⟨s, c, u, -, hstep⟩ | ⟨s, -, hfinish⟩⟩ := Lexer.reached_error h
  · exact Lexer.oneLine_of_step_error hstep
  · exact Lexer.oneLine_of_finish_error hfinish

theorem oneLine_diskError (e : DiskError) : OneLine e.message := by
  cases e <;> exact oneLine_ofList.2 (by decide)

namespace Fixer

theorem oneLine_of_passes_error {rs : Ruleset} {file : SourceFile} {remaining : Nat}
    {content : List Char} {fx : Fixer} {e : FixError}
    (h : (passes rs file remaining content fx).1 = .error e) : OneLine e.message := by
  induction remaining generalizing content fx with
  | zero =>
    cases h
    change OneLine ("Cannot fix the file: the rules did not converge after " ++ Nat.repr _ ++
      " iterations.")
    exact oneLine_numbered (oneLine_ofList.2 (by decide)) _ (oneLine_ofList.2 (by decide))
  | succ remaining ih =>
    unfold passes at h
    simp only at h
    split at h
    · rename_i cause hcause
      have hmessage := oneLine_of_tokenize_error hcause
      cases h
      split
      · exact oneLine_append.2 ⟨oneLine_ofList.2 (by decide), hmessage⟩
      · change OneLine ("Cannot fix the file: the fixes of loop " ++ Nat.repr _ ++
          " produced an invalid template (" ++ cause.message ++ ")")
        simp only [oneLine_append]
        exact ⟨⟨⟨⟨oneLine_ofList.2 (by decide), oneLine_repr _⟩, oneLine_ofList.2 (by decide)⟩,
          hmessage⟩, by decide⟩
    · split at h
      · cases h
      · split at h
        · exact ih h
        · exact ih h

end Fixer

/-! ### What rules say -/

/-- The message quotes an operator of the stream that goes over a line. -/
def TokenStream.QuotesBroken (s : TokenStream) (message : String) : Prop :=
  ∃ token ∈ s.tokens.toList, token.kind = .operator ∧ '\n' ∈ token.value ∧
    ∃ i side g wanted, message = (Spacing.finding s i token side g wanted).message

/-- What a finding says is on one line, unless it quotes such an operator. -/
structure Finding.Printed (f : Finding) (s : TokenStream) : Prop where
  sub : ∀ sub, f.sub = some sub → OneLine sub
  message : ¬OneLine f.message → s.QuotesBroken f.message

section Findings

variable {s : TokenStream} {i : Nat} {f : Finding} {token : Token} {table : OperatorTable}
  {r : Rule}

theorem oneLine_side_sub (side : Spacing.Side) : OneLine side.sub := by
  cases side <;> exact oneLine_ofList.2 (by decide)

theorem oneLine_kind_label (kind : TokenKind) : OneLine kind.label := by
  cases kind <;> exact oneLine_ofList.2 (by decide)

theorem oneLine_finding_iff (side : Spacing.Side) (g : Spacing.Gap) (wanted : Nat) :
    OneLine (Spacing.finding s i token side g wanted).message ↔ '\n' ∉ token.value := by
  have hword : OneLine side.word := by
    cases side <;> exact oneLine_ofList.2 (by decide)
  have hfound : OneLine (Spacing.foundText s g) := by
    unfold Spacing.foundText
    split
    · decide
    · exact oneLine_repr _
  have hmessage : (Spacing.finding s i token side g wanted).message =
      "Expecting " ++ wanted.repr ++ " whitespace " ++ side.word ++ " \"" ++ token.valueText ++
        "\"; found " ++ Spacing.foundText s g ++ "." := rfl
  rw [hmessage]
  simp only [oneLine_append]
  constructor
  · intro h
    exact oneLine_ofList.1 h.1.1.1.2
  · intro h
    exact ⟨⟨⟨⟨⟨⟨⟨⟨oneLine_ofList.2 (by decide), oneLine_repr wanted⟩, oneLine_ofList.2 (by decide)⟩,
      hword⟩, by decide⟩, oneLine_ofList.2 h⟩, oneLine_ofList.2 (by decide)⟩, hfound⟩, by decide⟩

theorem kind_of_newline (hhoused : token.lexeme.Housed table) (h : '\n' ∈ token.value) :
    token.kind ∈ TokenKind.layout ∨ token.kind = .string ∨ token.kind = .operator := by
  rcases hhoused '\n' h (by decide) with hkind | hkind | ⟨hkind, -⟩
  · exact Or.inl hkind
  · exact Or.inr (Or.inl hkind)
  · exact Or.inr (Or.inr hkind)

theorem Layout.oneLine_trailingSpace (hf : f ∈ trailingSpace s i) :
    OneLine f.message ∧ f.sub = none := by
  unfold trailingSpace at hf
  split at hf
  · cases hf
  · simp only at hf
    split at hf
    · cases hf
    · split at hf
      · cases hf
      · have hmessage : OneLine "A line should not end with blank space(s)." :=
          oneLine_ofList.2 (by decide)
        rw [List.mem_singleton.1 hf]
        exact ⟨hmessage, rfl⟩

theorem Layout.oneLine_blankEof (hf : f ∈ blankEof s i) : OneLine f.message ∧ f.sub = none := by
  unfold blankEof at hf
  split at hf
  · cases hf
  · split at hf
    · cases hf
    · split at hf
      · have hmessage : OneLine "A file must not contain only blank lines." :=
          oneLine_ofList.2 (by decide)
        rw [List.mem_singleton.1 hf]
        exact ⟨hmessage, rfl⟩
      · simp only at hf
        split at hf
        · cases hf
        · rw [List.mem_singleton.1 hf]
          refine ⟨?_, rfl⟩
          change OneLine ("A file must end with 1 blank line; found " ++ Nat.repr _ ++ ".")
          exact oneLine_numbered (oneLine_ofList.2 (by decide)) _ (by decide)

theorem Layout.oneLine_indent {width : Nat} (hf : f ∈ indent width s i) :
    OneLine f.message ∧ f.sub = none := by
  unfold indent at hf
  split at hf
  · cases hf
  · split at hf
    · have hmessage : OneLine "A file must not be indented with tabs." := oneLine_ofList.2 (by decide)
      rw [List.mem_singleton.1 hf]
      exact ⟨hmessage, rfl⟩
    · cases hf

theorem mem_declaredNames {k : Nat} (h : (token, k) ∈ declaredNames s i) :
    token ∈ s.tokens.toList ∧ token.kind = .name := by
  unfold declaredNames at h
  obtain ⟨hmem, hkind⟩ := List.mem_filter.1 h
  have hrest := List.mem_map_of_mem (f := Prod.fst) ((List.takeWhile_prefix _).subset hmem)
  rw [List.zipIdx_map_fst, Array.toList_extract, List.extract_eq_take_drop] at hrest
  exact ⟨List.mem_of_mem_drop (List.mem_of_mem_take hrest), beq_iff_eq.1 hkind⟩

theorem oneLine_checkNames {convention : NamingCase}
    (hhoused : ∀ token ∈ s.tokens.toList, token.lexeme.Housed table)
    (hf : f ∈ checkNames convention s i) : OneLine f.message ∧ f.sub = none := by
  unfold checkNames at hf
  split at hf
  · obtain ⟨⟨token, k⟩, hmem, hsome⟩ := List.mem_filterMap.1 hf
    obtain ⟨htoken, hkind⟩ := mem_declaredNames hmem
    have hvalue : '\n' ∉ token.value := by
      intro hnewline
      have := kind_of_newline (hhoused token htoken) hnewline
      rw [hkind] at this
      revert this
      decide
    have hwanted : '\n' ∉ convention.convert token.value :=
      fun hmem => hvalue (NamingCase.mem_of_mem_convert (by decide) (by decide) (by decide) hmem)
    simp only at hsome
    split at hsome
    · cases hsome
    · cases hsome
      refine ⟨?_, rfl⟩
      change OneLine ("The var name must use " ++ convention.label ++ "; expected " ++
        String.ofList (convention.convert token.value) ++ ".")
      simp only [oneLine_append]
      have hlabel : OneLine convention.label := by
        cases convention <;> exact oneLine_ofList.2 (by decide)
      exact ⟨⟨⟨⟨oneLine_ofList.2 (by decide), hlabel⟩, oneLine_ofList.2 (by decide)⟩,
        oneLine_ofList.2 hwanted⟩, by decide⟩
  · cases hf

theorem Finding.Printed.of_oneLine (h : OneLine f.message ∧ f.sub = none) : f.Printed s := by
  refine ⟨?_, fun hnot => absurd h.1 hnot⟩
  intro sub hsub
  rw [h.2] at hsub
  cases hsub

theorem Finding.Printed.of_spacing {sp : Spacing} (hsp : r.spacing? = some sp)
    (hhoused : ∀ token ∈ s.tokens.toList, token.lexeme.Housed table) (hf : f ∈ sp.check s i) :
    f.Printed s := by
  obtain ⟨side, wanted, token, g, hwanted, htoken, -, -, rfl⟩ := Spacing.mem_check_iff.1 hf
  constructor
  · rintro sub ⟨⟩
    exact oneLine_side_sub side
  · intro hnot
    have hnewline : '\n' ∈ token.value := by
      rw [oneLine_finding_iff] at hnot
      exact Classical.byContradiction hnot
    have hmem : token ∈ s.tokens.toList := Array.mem_toList_iff.2 (Array.mem_of_getElem? htoken)
    -- of the kinds that want spaces, only operators go over a line
    have hkind : token.kind = .operator := by
      have hwants := Spacing.kind_of_wanted hsp htoken hwanted
      have hbroken := kind_of_newline (hhoused token hmem) hnewline
      revert hwants hbroken
      cases side <;> cases token.kind <;> decide
    exact ⟨token, hmem, hkind, hnewline, i, side, g, wanted, rfl⟩

theorem Rule.printed_of_mem_check (hbuiltIn : r.isBuiltIn = true)
    (hhoused : ∀ token ∈ s.tokens.toList, token.lexeme.Housed table) (hf : f ∈ r.check s i) :
    f.Printed s := by
  induction r with
  | delimiterSpacing => exact .of_spacing (r := .delimiterSpacing) rfl hhoused hf
  | operatorSpacing => exact .of_spacing (r := .operatorSpacing) rfl hhoused hf
  | punctuationSpacing => exact .of_spacing (r := .punctuationSpacing) rfl hhoused hf
  | variableName convention => exact .of_oneLine (oneLine_checkNames hhoused hf)
  | blankEof => exact .of_oneLine (Layout.oneLine_blankEof hf)
  | indent width => exact .of_oneLine (Layout.oneLine_indent hf)
  | trailingSpace => exact .of_oneLine (Layout.oneLine_trailingSpace hf)
  | onPaths inner globs ih => exact ih hbuiltIn hf
  | rename | marker | spacing | script => cases hbuiltIn

theorem Rule.oneLine_name (hbuiltIn : r.isBuiltIn = true) : OneLine r.name := by
  induction r with
  | onPaths inner globs ih => exact ih hbuiltIn
  | rename | marker | spacing | script => cases hbuiltIn
  | _ => exact oneLine_ofList.2 (by decide)

end Findings

/-! ### Violations -/

/-- What a violation is printed with is on one line, its path apart, unless its message quotes an
    operator of the content that is not. -/
structure Violation.Printed (v : Violation) (table : OperatorTable) (content : List Char) :
    Prop where
  id : ∀ id, v.shortId? = some id → OneLine id
  message : ¬OneLine v.message →
    ∃ t, tokenize table content = .ok t ∧ t.stream.QuotesBroken v.message

theorem Violation.Printed.of_fatal (h : OneLine message) (path : Path) (line : Option Nat)
    (table : OperatorTable) (content : List Char) :
    (Violation.fatal message path line).Printed table content := by
  refine ⟨?_, fun hnot => absurd h hnot⟩
  intro id hid
  cases line <;> cases hid

theorem TokenStream.QuotesBroken.not_oneLine {s : TokenStream} (h : s.QuotesBroken message) :
    ¬OneLine message := by
  obtain ⟨token, -, -, hnewline, i, side, g, wanted, rfl⟩ := h
  rw [oneLine_finding_iff]
  exact fun hnot => hnot hnewline

theorem oneLine_displayText {f : Finding} {rule : String} (hrule : OneLine rule)
    (hsub : ∀ sub, f.sub = some sub → OneLine sub) :
    OneLine { f.id rule with line := none, column := none : ViolationId }.displayText := by
  have hlabel := oneLine_kind_label f.token.kind
  unfold ViolationId.displayText
  rw [oneLine_ofList]
  unfold OneLine at hrule hlabel hsub
  cases hf : f.sub with
  | none => simp [ViolationId.display, Finding.id, hf, hrule]
  | some sub => simp [ViolationId.display, Finding.id, hf, hrule, hsub sub hf, hlabel]

namespace Linter

variable {l : Linter} {path : Path} {content : List Char} {v : Violation} {d : Disk} {fix : Bool}
  {s : Progress}

theorem printed_of_mem_violationsIn (hbuiltIn : ∀ r ∈ l.ruleset.rules, r.isBuiltIn = true)
    (hv : v ∈ l.violationsIn path content) : v.Printed l.table content := by
  unfold violationsIn at hv
  simp only at hv
  split at hv
  · rename_i e he
    rw [List.mem_singleton.1 hv]
    exact .of_fatal (oneLine_of_tokenize_error he) path _ _ _
  · rename_i t ht
    obtain ⟨r, hr, -, f, hf, -, rfl⟩ := Ruleset.mem_violations.1 hv
    have hhoused : ∀ token ∈ t.stream.tokens.toList, token.lexeme.Housed l.table :=
      fun token htoken => tokenize_housed ht _ (List.mem_map_of_mem htoken)
    obtain ⟨i, -, hcheck⟩ := List.mem_flatMap.1 hf
    have hprinted := Rule.printed_of_mem_check (hbuiltIn r hr) hhoused hcheck
    constructor
    · rintro id ⟨⟩
      exact oneLine_displayText (Rule.oneLine_name (hbuiltIn r hr)) hprinted.sub
    · intro hnot
      exact ⟨t, ht, hprinted.message hnot⟩

theorem printed_of_changeOf {calls : CallCounts} {table : OperatorTable} {checked : List Char}
    (h : changeOf path content (l.fixContent path content calls).1 = .error v) :
    v.Printed table checked := by
  unfold changeOf at h
  split at h
  · cases h
  · cases h
  · rename_i e _ he
    cases h
    simp only [fixContent, Fixer.fixFile] at he
    exact .of_fatal (Fixer.oneLine_of_passes_error he) path _ _ _

section

variable (hbuiltIn : ∀ r ∈ l.ruleset.rules, r.isBuiltIn = true)
include hbuiltIn

theorem printed_of_mem_finishFile {change : Except Violation (Option (List Char))}
    (hchange : ∀ v, change = .error v → v.Printed l.table content)
    (hv : v ∈ (l.finishFile path content change d).1.violations) :
    v.Printed l.table (l.finishFile path content change d).1.content := by
  unfold finishFile at hv ⊢
  split at hv
  · rename_i failure
    rcases List.mem_cons.1 hv with rfl | hv
    · exact hchange v rfl
    · exact printed_of_mem_violationsIn hbuiltIn hv
  · exact printed_of_mem_violationsIn hbuiltIn hv
  · split at hv
    · rename_i e he
      have hwrite : OneLine (writeMessage e) :=
        oneLine_append.2 ⟨oneLine_ofList.2 (by decide), oneLine_diskError e⟩
      rcases List.mem_cons.1 hv with rfl | hv
      · exact .of_fatal hwrite path _ _ _
      · exact printed_of_mem_violationsIn hbuiltIn hv
    · exact printed_of_mem_violationsIn hbuiltIn hv

theorem printed_of_mem_processFile (hv : v ∈ (l.processFile fix path content s).1.violations) :
    v.Printed l.table (l.processFile fix path content s).1.content := by
  cases fix with
  | false =>
    have hchange : ∀ v : Violation, (Except.ok none : Except Violation (Option (List Char))) =
        .error v → v.Printed l.table content := by
      intro v hv
      cases hv
    exact printed_of_mem_finishFile (d := s.disk) hbuiltIn hchange hv
  | true => exact printed_of_mem_finishFile hbuiltIn (fun v hv => printed_of_changeOf hv) hv

theorem printed_of_mem_processAll {pending : List (Path × List Char)} {o : Outcome}
    (ho : o ∈ (l.processAll fix pending s).1) (hv : v ∈ o.violations) :
    v.Printed l.table o.content := by
  induction pending generalizing s with
  | nil => cases ho
  | cons e pending ih =>
    rcases List.mem_cons.1 ho with rfl | ho
    · exact printed_of_mem_processFile hbuiltIn hv
    · exact ih ho

end

theorem fatal_of_mem_readFiles {cache : Option Cache} {files : List Path}
    (hv : v ∈ (readFiles d cache files).2) :
    ∃ message path, OneLine message ∧ v = Violation.fatal message path none := by
  induction files with
  | nil => cases hv
  | cons path files ih =>
    cases hread : d.read path with
    | error e =>
      rw [readFiles_of_error hread] at hv
      rcases List.mem_cons.1 hv with rfl | hv
      · have hread : OneLine (readMessage e) :=
          oneLine_append.2 ⟨oneLine_ofList.2 (by decide), oneLine_diskError e⟩
        exact ⟨readMessage e, path, hread, rfl⟩
      · exact ih hv
    | ok content =>
      cases hpending : isPending cache path content with
      | true =>
        rw [readFiles_of_isPending hread hpending] at hv
        exact ih hv
      | false =>
        rw [readFiles_of_not_isPending hread hpending] at hv
        exact ih hv

end Linter

/-! ### What a report holds -/

namespace Report

variable {r r' : Report} {v : Violation} {min : Option Severity}

theorem mem_allViolations_of_addAll {vs : List Violation} (h : r.addAll vs = .ok r')
    (hv : v ∈ r'.allViolations none) : v ∈ r.allViolations none ∨ v ∈ vs := by
  induction vs generalizing r with
  | nil =>
    cases h
    exact Or.inl hv
  | cons u vs ih =>
    unfold addAll at h
    split at h
    · rename_i r₁ hadd
      rcases ih h with hv | hv
      · rcases mem_allViolations_of_add hadd hv with hv | rfl
        · exact Or.inl hv
        · exact Or.inr List.mem_cons_self
      · exact Or.inr (List.mem_cons_of_mem u hv)
    · cases h

theorem allViolations_of_addFixed {p : Path} (h : r.addFixed p = .ok r') :
    r'.allViolations min = r.allViolations min := by
  unfold addFixed at h
  split at h
  · cases h
  · split at h
    · cases h
      rfl
    · cases h
      rfl

theorem mem_allViolations_of_addOutcomes {outcomes : List Outcome}
    (h : Linter.addOutcomes r outcomes = .ok r') (hv : v ∈ r'.allViolations none) :
    v ∈ r.allViolations none ∨ ∃ o ∈ outcomes, v ∈ o.violations := by
  induction outcomes generalizing r with
  | nil =>
    cases h
    exact Or.inl hv
  | cons o outcomes ih =>
    unfold Linter.addOutcomes at h
    split at h
    · cases h
    · rename_i r₂ houtcome
      rcases ih h with hv | ⟨o', ho', hv⟩
      · unfold Linter.addOutcome at houtcome
        split at houtcome
        · cases houtcome
        · rename_i r₁ hadd
          have hv₁ : v ∈ r₁.allViolations none := by
            split at houtcome
            · rwa [← allViolations_of_addFixed houtcome]
            · cases houtcome
              exact hv
          rcases mem_allViolations_of_addAll hadd hv₁ with hv | hv
          · exact Or.inl hv
          · exact Or.inr ⟨o, List.mem_cons_self, hv⟩
      · exact Or.inr ⟨o', List.mem_cons_of_mem o ho', hv⟩

theorem allViolations_empty (files : List Path) : (empty files).allViolations none = [] := by
  apply List.filter_eq_nil_iff.2
  intro v hv
  obtain ⟨e, he, hve⟩ := List.mem_flatMap.1 hv
  rw [eq_nil_of_mem_empty he] at hve
  cases hve

theorem mem_allViolations_none (hv : v ∈ r.allViolations min) : v ∈ r.allViolations none :=
  List.mem_filter.2 ⟨(List.mem_filter.1 hv).1, rfl⟩

end Report

/-! ### Printing -/

namespace Output

variable {o : OutputOptions} {v : Violation}

theorem count_unlines (lines : List String) :
    (unlines lines).toList.count '\n' =
      lines.length + (lines.flatMap String.toList).count '\n' := by
  have htext : (unlines lines).toList = lines.flatMap fun line => line.toList ++ ['\n'] := by
    simp [unlines, String.toList_join, List.flatMap_map]
  rw [htext]
  clear htext
  induction lines with
  | nil => rfl
  | cons line lines ih =>
    simp only [List.flatMap_cons, List.count_append, ih, List.count_singleton_self,
      List.length_cons]
    omega

theorem oneLine_shownPath (o : OutputOptions) {p : Path} (h : '\n' ∉ p.text.toList) :
    OneLine (shownPath o p) := by
  unfold shownPath Path.relativeTo Path.relativeTo?
  simp only
  split
  · simp only [Option.getD_some, oneLine_ofList]
    unfold Path.cover
    split
    · intro hmem
      exact h (List.mem_of_mem_drop (List.mem_of_mem_take hmem))
    · exact List.not_mem_nil
  · exact h

theorem oneLine_location (v : Violation) : OneLine (location v) := by
  unfold location
  split
  · rename_i line column _ _
    change OneLine (line.repr ++ ":" ++ column.repr)
    simp only [oneLine_append]
    exact ⟨⟨oneLine_repr line, by decide⟩, oneLine_repr column⟩
  · exact oneLine_repr _
  · decide

theorem count_compactLine (hfile : '\n' ∉ v.file.text.toList)
    (hid : ∀ id, v.shortId? = some id → OneLine id) :
    (compactLine o v).toList.count '\n' = v.message.toList.count '\n' := by
  have hlabel : OneLine v.severity.label := by
    cases v.severity <;> exact oneLine_ofList.2 (by decide)
  obtain ⟨start, hstart, hline⟩ : ∃ start, OneLine start ∧ compactLine o v = start ++ v.message := by
    refine ⟨_, ?_, rfl⟩
    simp only [oneLine_append]
    refine ⟨⟨⟨⟨⟨⟨oneLine_shownPath o hfile, by decide⟩, oneLine_location v⟩, by decide⟩, hlabel⟩,
      ?_⟩, by decide⟩
    split
    · rename_i id hshort
      change OneLine (" [" ++ id ++ "]")
      simp only [oneLine_append]
      exact ⟨⟨by decide, hid id hshort⟩, by decide⟩
    · decide
  rw [hline, String.toList_append, List.count_append, List.count_eq_zero.2 hstart, Nat.zero_add]

theorem count_render_compact {r : Report} (ho : o.format = .compact)
    (h : ∀ v ∈ r.allViolations o.level, '\n' ∉ v.file.text.toList ∧
      ∀ id, v.shortId? = some id → OneLine id) :
    (render o r).toList.count '\n' = (r.allViolations o.level).length +
      ((r.allViolations o.level).flatMap (·.message.toList)).count '\n' := by
  have hlines : ((compactLines o r).flatMap String.toList).count '\n' =
      ((r.allViolations o.level).flatMap (·.message.toList)).count '\n' := by
    rw [compactLines, List.flatMap_map, List.count_flatMap, List.count_flatMap]
    apply congrArg List.sum
    apply List.map_congr_left
    intro v hv
    rw [Function.comp_apply, Function.comp_apply, count_compactLine (h v hv).1 (h v hv).2]
  have hrender : render o r = unlines (compactLines o r) := by
    rw [render, ho]
  rw [hrender, count_unlines, hlines, compactLines, List.length_map]

end Output

namespace Linter

/-- What is known of a violation that a run reports: it is one of a file of the run, and if it is not
    printed on one line, it quotes an operator of the content that was checked. -/
structure Reported (l : Linter) (d : Disk) (files : List Path) (fix : Bool) (cache : Option Cache)
    (calls : CallCounts) (v : Violation) : Prop where
  file : v.file ∈ files
  id : ∀ id, v.shortId? = some id → OneLine id
  message : ¬OneLine v.message →
    ∃ outcome ∈ (l.processAll fix (readFiles d cache files).1 { disk := d, calls }).1,
      v ∈ outcome.violations ∧ ∃ t, tokenize l.table outcome.content = .ok t ∧
        t.stream.QuotesBroken v.message

theorem reported_of_mem {l : Linter} {d : Disk} {files : List Path} {fix : Bool}
    {cache : Option Cache} {calls : CallCounts} {unread report : Report} {v : Violation}
    (hbuiltIn : ∀ r ∈ l.ruleset.rules, r.isBuiltIn = true)
    (hunread : (Report.empty files).addAll (readFiles d cache files).2 = .ok unread)
    (hreport : addOutcomes unread
      (l.processAll fix (readFiles d cache files).1 { disk := d, calls }).1 = .ok report)
    (hv : v ∈ report.allViolations none) : l.Reported d files fix cache calls v := by
  obtain ⟨hpending, hfailures⟩ := readFiles_subset d cache files
  rcases Report.mem_allViolations_of_addOutcomes hreport hv with hv | ⟨outcome, houtcome, hv⟩
  · rcases Report.mem_allViolations_of_addAll hunread hv with hv | hv
    · rw [Report.allViolations_empty] at hv
      cases hv
    · have hfile := hfailures v hv
      obtain ⟨message, path, hmessage, rfl⟩ := fatal_of_mem_readFiles hv
      exact ⟨hfile, (Violation.Printed.of_fatal hmessage path none l.table []).id,
        fun hnot => absurd hmessage hnot⟩
  · obtain ⟨e, he, hsincere⟩ := sincere_of_mem_processAll houtcome
    have hprinted := printed_of_mem_processAll hbuiltIn houtcome hv
    refine ⟨?_, hprinted.id, fun hnot => ⟨outcome, houtcome, hv, hprinted.message hnot⟩⟩
    rw [hsincere.file_eq v hv]
    exact hpending e he

/-- **How many lines the compact format has.** With built-in rules and paths on one line, there is a
    line feed for each violation that is printed and one for each line feed in their messages; and
    the second kind is there just if a message quotes an operator that goes over a line. -/
theorem run_compact_lines (l : Linter) (d : Disk) (files : List Path) (fix : Bool)
    (cache : Option Cache) (calls : CallCounts)
    (hbuiltIn : ∀ r ∈ l.ruleset.rules, r.isBuiltIn = true)
    (hfiles : ∀ p ∈ files, '\n' ∉ p.text.toList) :
    ∃ result, l.run d files fix cache calls = .ok result ∧
      ∀ o : OutputOptions, o.format = .compact →
        (Output.render o result.report).toList.count '\n' =
            (result.report.allViolations o.level).length +
              ((result.report.allViolations o.level).flatMap (·.message.toList)).count '\n' ∧
          ((Output.render o result.report).toList.count '\n' =
              (result.report.allViolations o.level).length ↔
            ∀ v ∈ result.report.allViolations o.level,
              ∀ outcome ∈ (l.processAll fix (readFiles d cache files).1 { disk := d, calls }).1,
                v ∈ outcome.violations → ∀ t, tokenize l.table outcome.content = .ok t →
                  ¬t.stream.QuotesBroken v.message) := by
  obtain ⟨unread, report, hunread, hreport⟩ := l.run_ok d files fix cache calls
  refine ⟨_, run_eq_ok hunread hreport, ?_⟩
  intro o ho
  have hreported : ∀ v ∈ report.allViolations o.level, l.Reported d files fix cache calls v :=
    fun v hv => reported_of_mem hbuiltIn hunread hreport (Report.mem_allViolations_none hv)
  have hcount := Output.count_render_compact (r := report) ho fun v hv =>
    ⟨hfiles _ (hreported v hv).file, (hreported v hv).id⟩
  refine ⟨hcount, ?_⟩
  rw [hcount, Nat.add_eq_left, List.count_eq_zero, List.mem_flatMap]
  constructor
  · intro hnone v hv outcome houtcome hmem t ht hquotes
    exact hquotes.not_oneLine fun hfeed => hnone ⟨v, hv, hfeed⟩
  · rintro hnone ⟨v, hv, hfeed⟩
    obtain ⟨outcome, houtcome, hmem, t, ht, hquotes⟩ :=
      (hreported v hv).message fun hline => hline hfeed
    exact hnone v hv outcome houtcome hmem t ht hquotes

/-- An operator that goes over a line, and a file that is missing. -/
theorem run_compact_lines_missing :
    let l : Linter := ⟨⟨"/"⟩, ⟨Standard.full.rules⟩, [], [], {}, OperatorTable.default⟩
    let d : Disk :=
      ⟨[("a.twig", .file (.text "\x7b\x7b a  not\nin b \x7d\x7d\n".toList))], ⟨"/"⟩⟩
    ∃ result, l.run d [⟨"/a.twig"⟩, ⟨"/b.twig"⟩] false none [] = .ok result ∧
      ∀ level, (Output.render ⟨.compact, level, ⟨"/"⟩, false⟩ result.report).toList.count '\n' =
        (result.report.allViolations level).length +
          ((result.report.allViolations level).flatMap (·.message.toList)).count '\n' := by
  intro l d
  have hbuiltIn : ∀ r ∈ l.ruleset.rules, r.isBuiltIn = true := by decide
  have hfiles : ∀ p ∈ [(⟨"/a.twig"⟩ : Path), ⟨"/b.twig"⟩], '\n' ∉ p.text.toList := by
    decide +kernel
  obtain ⟨result, hrun, hlines⟩ :=
    run_compact_lines l d [⟨"/a.twig"⟩, ⟨"/b.twig"⟩] false none [] hbuiltIn hfiles
  exact ⟨result, hrun, fun level => (hlines ⟨.compact, level, ⟨"/"⟩, false⟩ rfl).1⟩

/-- One violation, on two lines. -/
theorem run_compact_lines_broken :
    let l : Linter := ⟨⟨"/"⟩, ⟨Standard.full.rules⟩, [], [], {}, OperatorTable.default⟩
    let d : Disk :=
      ⟨[("a.twig", .file (.text "\x7b\x7b a  not\nin b \x7d\x7d\n".toList))], ⟨"/"⟩⟩
    (l.run d [⟨"/a.twig"⟩] false none []).toOption.map (fun result =>
        ((result.report.allViolations none).length,
          (Output.render ⟨.compact, none, ⟨"/"⟩, false⟩ result.report).toList.count '\n')) =
      some (1, 2) := by
  decide +kernel

end Linter

end TwigStyle
