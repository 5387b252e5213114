import Mathlib.Data.List.Basic
import Mathlib.Data.List.TakeWhile
import TwigStyle.Proofs.Ids
import TwigStyle.Proofs.Lookahead
import TwigStyle.Rule.Finding

/-!
# What a directive silences

The id under which a violation is reported can be pasted into a directive: it is written without a
separator, so it is one item of the list, and what is read from that item are the parts that were
written (`parse_display`).  The token of an id without a sub id is not written and so may be any.

An item names a rule by the text before its first dot or colon.  If there is none, the item has only
other parts, and it silences every rule at which these hit; a list without items silences every rule
in its scope.  These are the only ways in which a rule is silenced that is not named
(`suppresses_iff`).
-/

namespace TwigStyle

/-! ### Patterns -/

namespace ViolationId

variable {p v : ViolationId}

theorem isMatch_iff :
    p.isMatch v = true ↔ nameMatches p.rule v.rule = true ∧ nameMatches p.sub v.sub = true ∧
      nameMatches p.token v.token = true ∧ countMatches p.line v.line = true ∧
      countMatches p.column v.column = true := by
  simp only [isMatch, Bool.and_eq_true, and_assoc]

theorem nameMatches_some_iff {s : String} {value : Option String} :
    nameMatches (some s) value = true ↔
      ∃ t, value = some t ∧ Text.sameIgnoringCase s t = true := by
  cases value with
  | none => simp [nameMatches]
  | some t => simp [nameMatches]

theorem countMatches_some_iff {n : Nat} {value : Option Nat} :
    countMatches (some n) value = true ↔ value = some n := by
  rw [countMatches, Option.isNone_some, Bool.false_or, beq_iff_eq]
  exact eq_comm

theorem nameMatches_self (value : Option String) : nameMatches value value = true := by
  cases value with
  | none => rfl
  | some s => exact beq_self_eq_true _

theorem countMatches_self (value : Option Nat) : countMatches value value = true := by
  rw [countMatches, beq_self_eq_true, Bool.or_true]

theorem isMatch_written (id : ViolationId) : id.written.isMatch id = true := by
  obtain ⟨rule, sub, token, line, column⟩ := id
  rw [isMatch_iff]
  refine ⟨nameMatches_self rule, nameMatches_self sub, ?_, countMatches_self line, ?_⟩
  · cases sub with
    | none => rfl
    | some s => exact nameMatches_self token
  · cases line with
    | none => rfl
    | some n => exact countMatches_self column

/-! ### Plain names -/

/-- A name that is not cut, neither in an id nor in a list of ids. -/
def IsPlain (s : String) : Prop :=
  s.toList ≠ [] ∧ ∀ c ∈ s.toList, c ≠ '.' ∧ c ≠ ':' ∧ c ≠ ',' ∧ Text.isBlank c = false

instance (s : String) : Decidable (IsPlain s) :=
  decidable_of_iff
    (s.toList ≠ [] ∧
      s.toList.all (fun c => c != '.' && c != ':' && c != ',' && !Text.isBlank c) = true)
    (by simp [IsPlain, and_assoc])

theorem IsPlain.isPart {s : String} (h : IsPlain s) : IsPart s ∧ '.' ∉ s.toList := by
  refine ⟨⟨h.1, ?_, ?_⟩, ?_⟩
  · apply Text.tight_of_solid
    intro c hc
    exact (h.2 c hc).2.2.2
  · intro hc
    exact (h.2 _ hc).2.1 rfl
  · intro hc
    exact (h.2 _ hc).1 rfl

end ViolationId

theorem TokenKind.isPlain_label (kind : TokenKind) : ViolationId.IsPlain kind.label := by
  cases kind <;> decide

/-! ### Items -/

namespace Directive

variable {w ids comment : List Char} {c : Char} {scope : Scope}

/-- A character between two items. -/
def isSeparator (c : Char) : Bool := c == ',' || Text.isBlank c

theorem isSeparator_eq_false_iff : isSeparator c = false ↔ c ≠ ',' ∧ Text.isBlank c = false := by
  rw [isSeparator, Bool.or_eq_false_iff, beq_eq_false_iff_ne]

theorem isSeparator_of_isPlain {s : String} (h : ViolationId.IsPlain s) (hc : c ∈ s.toList) :
    isSeparator c = false :=
  isSeparator_eq_false_iff.2 (h.2 c hc).2.2

theorem isSeparator_of_mem_natText {n : Nat} (hc : c ∈ Text.natText n) : isSeparator c = false := by
  have hdigit := Text.isDigit_of_mem_natText hc
  rw [isSeparator_eq_false_iff]
  constructor
  · rintro rfl
    exact absurd hdigit (by decide)
  · exact Text.not_isBlank_of_isDigit hdigit

theorem parse?_of_split? (h : split? comment = some (scope, ids)) (line : Nat) :
    parse? comment line = some (
      match items ids with
      | [] => [{ line := scope.boundLine line }]
      | items => items.map (ViolationId.parse · (scope.boundLine line))) := by
  rw [parse?, h]
  dsimp only
  cases items ids with
  | nil => rfl
  | cons first rest => rfl

theorem split?_file (hne : w ≠ []) (hw : ∀ c ∈ w, Text.isBlank c = false) :
    split? ("twig-cs-fixer-disable ".toList ++ w) = some (.file, w) := by
  have hkeyword : "twig-cs-fixer-disable ".toList = keyword ++ [' '] := by decide
  have htrim : Text.trim (keyword ++ [' '] ++ w) = keyword ++ [' '] ++ w := by
    apply Text.trim_of_tight
    constructor
    · intro c hc
      cases hc
      decide
    · intro c hc
      rw [List.getLast?_append_of_ne_nil _ hne] at hc
      exact hw c (List.mem_of_mem_getLast? hc)
  have hdrop : (' ' :: w).dropWhile Text.isBlank = w := by
    rw [List.dropWhile_cons_of_pos (by decide)]
    exact Text.dropWhile_blank fun c hc => hw c (List.mem_of_mem_head? hc)
  rw [hkeyword, split?, htrim, List.append_assoc, Text.after?_append]
  -- No scope starts with a blank.
  change (if Text.isBlank ' ' then some (Scope.file, (' ' :: w).dropWhile Text.isBlank) else none) =
    some (Scope.file, w)
  rw [if_pos (by decide), hdrop]

theorem items_of_solid (hne : w ≠ []) (hw : ∀ c ∈ w, isSeparator c = false) : items w = [w] := by
  have hempty : (!w.isEmpty) = true := by simpa using hne
  change (Text.splitWhere isSeparator w).filter (!·.isEmpty) = [w]
  rw [Text.splitWhere_of_solid hw]
  exact List.filter_cons_of_pos hempty

theorem parse?_item (hne : w ≠ []) (hw : ∀ c ∈ w, isSeparator c = false) (line : Nat) :
    parse? ("twig-cs-fixer-disable ".toList ++ w) line = some [ViolationId.parse w none] := by
  have hsplit := split?_file hne fun c hc => (isSeparator_eq_false_iff.1 (hw c hc)).2
  rw [parse?_of_split? hsplit, items_of_solid hne hw]
  rfl

end Directive

/-! ### Reported ids -/

namespace Finding

variable {rule : String} {f : Finding}

theorem legible_id (hrule : ViolationId.IsPlain rule) (hsub : ∀ s ∈ f.sub, ViolationId.IsPlain s)
    (hline : f.token.line ≤ Text.maxCount) (hcolumn : f.token.column ≤ Text.maxCount) :
    (f.id rule).written.Legible := by
  constructor
  · intro s hs
    cases hs
    exact hrule.isPart
  · intro s hs
    exact (hsub s hs).isPart
  · intro s hs
    obtain ⟨-, -, hs⟩ := Option.bind_eq_some_iff.1 hs
    cases hs
    exact f.token.kind.isPlain_label.isPart.1
  · intro n hn
    cases hn
    exact hline
  · intro n hn
    cases hn
    exact hcolumn

theorem display_id (hrule : ViolationId.IsPlain rule) (hsub : ∀ s ∈ f.sub, ViolationId.IsPlain s) :
    (f.id rule).display ≠ [] ∧ ∀ c ∈ (f.id rule).display, Directive.isSeparator c = false := by
  constructor
  · intro hnil
    have hname := (List.append_eq_nil_iff.1 hnil).1
    exact hrule.1 (List.append_eq_nil_iff.1 hname).1
  · intro c hc
    rw [ViolationId.display_eq, List.mem_append] at hc
    rcases hc with hc | hc
    · rw [id] at hc
      cases hf : f.sub with
      | none =>
        rw [hf, ViolationId.displayName_rule] at hc
        exact Directive.isSeparator_of_isPlain hrule hc
      | some sub =>
        rw [hf, ViolationId.displayName_token] at hc
        simp only [Option.getD_some, List.mem_append, List.mem_cons] at hc
        rcases hc with hc | rfl | hc | rfl | hc
        · exact Directive.isSeparator_of_isPlain hrule hc
        · decide
        · exact Directive.isSeparator_of_isPlain (hsub sub hf) hc
        · decide
        · exact Directive.isSeparator_of_isPlain f.token.kind.isPlain_label hc
    · simp only [ViolationId.displayPlace, id, List.mem_append, List.mem_cons] at hc
      rcases hc with (rfl | hc) | rfl | hc
      · decide
      · exact Directive.isSeparator_of_mem_natText hc
      · decide
      · exact Directive.isSeparator_of_mem_natText hc

end Finding

namespace Directive

/-- **A reported id can be pasted into a directive.** The directive silences what was reported, and
    besides it only violations of the same rule in the same place. -/
theorem suppresses_pasted_id (rule : String) (f : Finding) (hrule : ViolationId.IsPlain rule)
    (hsub : ∀ s ∈ f.sub, ViolationId.IsPlain s) (hline : f.token.line ≤ Text.maxCount)
    (hcolumn : f.token.column ≤ Text.maxCount) (commentLine : Nat) :
    ∃ ids, parse? ("twig-cs-fixer-disable ".toList ++ (f.id rule).display) commentLine = some ids ∧
      isSuppressed ids (f.id rule) = true ∧
      ∀ v, isSuppressed ids v = true →
        (∃ name, v.rule = some name ∧ Text.sameIgnoringCase rule name = true) ∧
          v.line = some f.token.line ∧ v.column = some f.token.column := by
  obtain ⟨hne, hseparator⟩ := Finding.display_id hrule hsub
  have hread : ViolationId.parse (f.id rule).display none = (f.id rule).written := by
    rw [ViolationId.parse_display (Finding.legible_id hrule hsub hline hcolumn)]
    rfl
  refine ⟨[(f.id rule).written], ?_, ?_, ?_⟩
  · rw [parse?_item hne hseparator, hread]
  · simpa [isSuppressed] using ViolationId.isMatch_written (f.id rule)
  · intro v hv
    have hmatch : (f.id rule).written.isMatch v = true := by simpa [isSuppressed] using hv
    obtain ⟨hname, -, -, hplace, hcolumn⟩ := ViolationId.isMatch_iff.1 hmatch
    refine ⟨?_, ?_, ?_⟩
    · exact ViolationId.nameMatches_some_iff.1 hname
    · exact ViolationId.countMatches_some_iff.1 hplace
    · exact ViolationId.countMatches_some_iff.1 hcolumn

/-- A finding on an operator, reported at the last column that can be read. -/
theorem suppresses_pasted_id_operator :
    ∃ ids, parse?
        "twig-cs-fixer-disable OperatorSpacing.After.Operator:4:18446744073709551615".toList 9 =
          some ids ∧
      isSuppressed ids ⟨some "OperatorSpacing", some "After", some "Operator", some 4,
        some 18446744073709551615⟩ = true ∧
      ∀ v, isSuppressed ids v = true →
        (∃ name, v.rule = some name ∧ Text.sameIgnoringCase "OperatorSpacing" name = true) ∧
          v.line = some 4 ∧ v.column = some 18446744073709551615 := by
  apply suppresses_pasted_id "OperatorSpacing"
    { index := 3
      token := { kind := .operator, value := ['+'], position := ⟨4, 18446744073709551615⟩ }
      message := "There should be 1 space(s) after operator."
      sub := some "After" }
  · decide
  · rintro s ⟨⟩
    decide
  · decide
  · decide

end Directive

/-! ### Named and unnamed items -/

namespace ViolationId

/-- The text before the first dot or colon names the rule. -/
theorem rule_parse (text : List Char) (defaultLine : Option Nat) :
    (parse text defaultLine).rule =
      namePart? (some ((Text.trim text).takeWhile fun c => c != '.' && c != ':')) := by
  simp only [parse, Text.headD_splitWhere, Text.getElem?_zero_splitAtMost, List.takeWhile_takeWhile,
    Bool.decide_and, Bool.decide_eq_true]
  rfl

theorem nameMatches_namePart? (t : List Char) (rule : String) :
    nameMatches (namePart? (some t)) (some rule) = true ↔
      Text.trim t = [] ∨ Text.sameIgnoringCase (String.ofList (Text.trim t)) rule = true := by
  rw [namePart?, Option.map_some]
  cases Text.trim t with
  | nil => simp [nameMatches]
  | cons c t => simp [nameMatches]

/-- A pattern fits if its rule does and the rest of it does. -/
theorem isMatch_iff_rule {p v : ViolationId} :
    p.isMatch v = true ↔
      nameMatches p.rule v.rule = true ∧ isMatch { p with rule := none } v = true := by
  simp only [isMatch_iff, nameMatches, true_and]

end ViolationId

namespace Directive

variable {ids comment item : List Char} {scope : Scope} {rule : String} {v : ViolationId}

/-- The rule that an item names; empty if it names none. -/
def nameOf (item : List Char) : List Char :=
  Text.trim (item.takeWhile fun c => c != '.' && c != ':')

theorem solid_of_mem_items (h : item ∈ items ids) : ∀ c ∈ item, isSeparator c = false :=
  Text.splitWhere_solid ids item (List.mem_filter.1 h).1

theorem isMatch_parse_iff (h : item ∈ items ids) (hv : v.rule = some rule) (line : Option Nat) :
    (ViolationId.parse item line).isMatch v = true ↔
      (nameOf item = [] ∨ Text.sameIgnoringCase (String.ofList (nameOf item)) rule = true) ∧
        ViolationId.isMatch { ViolationId.parse item line with rule := none } v = true := by
  have htrim : Text.trim item = item := by
    apply Text.trim_of_tight
    apply Text.tight_of_solid
    intro c hc
    exact (isSeparator_eq_false_iff.1 (solid_of_mem_items h c hc)).2
  rw [ViolationId.isMatch_iff_rule, ViolationId.rule_parse, htrim, hv,
    ViolationId.nameMatches_namePart?]
  rfl

/-- **What a directive silences.** If it has no items, everything on its line; otherwise what one of
    its items fits, and an item fits only violations of the rule it names, if it names one. -/
theorem suppresses_iff (comment : List Char) (scope : Scope) (ids : List Char)
    (hsplit : split? comment = some (scope, ids)) (line : Nat) (v : ViolationId) (rule : String)
    (hv : v.rule = some rule) :
    ∃ patterns, parse? comment line = some patterns ∧
      (isSuppressed patterns v = true ↔
        ((∀ c ∈ ids, isSeparator c = true) ∧
          ViolationId.countMatches (scope.boundLine line) v.line = true) ∨
        ∃ item ∈ items ids,
          (nameOf item = [] ∨ Text.sameIgnoringCase (String.ofList (nameOf item)) rule = true) ∧
            ViolationId.isMatch
              { ViolationId.parse item (scope.boundLine line) with rule := none } v = true) := by
  have hall : items ids = [] ↔ ∀ c ∈ ids, isSeparator c = true := Text.fields_eq_nil_iff
  refine ⟨_, parse?_of_split? hsplit line, ?_⟩
  rw [← hall]
  cases hitems : items ids with
  | nil =>
    simp [isSuppressed, ViolationId.isMatch_iff, ViolationId.nameMatches,
      ViolationId.countMatches]
  | cons first rest =>
    dsimp only
    rw [← hitems, isSuppressed, List.any_map, List.any_eq_true]
    constructor
    · rintro ⟨item, hitem, hmatch⟩
      exact .inr ⟨item, hitem, (isMatch_parse_iff hitem hv _).1 hmatch⟩
    · rintro (⟨hnil, -⟩ | ⟨item, hitem, hmatch⟩)
      · rw [hitems] at hnil
        cases hnil
      · exact ⟨item, hitem, (isMatch_parse_iff hitem hv _).2 hmatch⟩

/-- An item with a message and a line silences every rule that reports the message there. -/
theorem suppresses_iff_message :
    split? " twig-cs-fixer-disable-next-line Indent, .after:9 ".toList =
        some (.nextLine, "Indent, .after:9".toList) ∧
      ∃ patterns, parse? " twig-cs-fixer-disable-next-line Indent, .after:9 ".toList 3 =
          some patterns ∧
        isSuppressed patterns
          ⟨some "OperatorSpacing", some "After", some "Operator", some 9, some 5⟩ = true := by
  have hsplit : split? " twig-cs-fixer-disable-next-line Indent, .after:9 ".toList =
      some (.nextLine, "Indent, .after:9".toList) := by decide +kernel
  obtain ⟨patterns, hpatterns, hiff⟩ := suppresses_iff _ _ _ hsplit 3
    ⟨some "OperatorSpacing", some "After", some "Operator", some 9, some 5⟩ "OperatorSpacing" rfl
  refine ⟨hsplit, patterns, hpatterns, hiff.2 (.inr ⟨".after:9".toList, ?_, .inl ?_, ?_⟩)⟩
  · decide +kernel
  · decide +kernel
  · decide +kernel

/-- Two lists of ids that name no rule, and silence one. -/
theorem suppresses_unnamed :
    (split? "twig-cs-fixer-disable .After".toList = some (.file, ".After".toList) ∧
      (∃ patterns, parse? "twig-cs-fixer-disable .After".toList 1 = some patterns ∧
        isSuppressed patterns
          ⟨some "OperatorSpacing", some "After", some "Operator", some 4, some 8⟩ = true) ∧
      ¬∃ item ∈ items ".After".toList,
        Text.sameIgnoringCase (String.ofList (nameOf item)) "OperatorSpacing" = true) ∧
    split? "twig-cs-fixer-disable ,".toList = some (.file, ",".toList) ∧
      (∃ patterns, parse? "twig-cs-fixer-disable ,".toList 1 = some patterns ∧
        isSuppressed patterns
          ⟨some "OperatorSpacing", some "After", some "Operator", some 4, some 8⟩ = true) ∧
      ¬∃ item ∈ items ",".toList,
        Text.sameIgnoringCase (String.ofList (nameOf item)) "OperatorSpacing" = true := by
  refine ⟨⟨by decide +kernel, ⟨[{ sub := some "After" }], ?_, ?_⟩, ?_⟩,
    by decide +kernel, ⟨[{}], ?_, ?_⟩, ?_⟩
  all_goals decide +kernel

end Directive

end TwigStyle
