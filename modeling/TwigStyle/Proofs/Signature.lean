import TwigStyle.Config.Ruleset
import TwigStyle.Linter.Run
import TwigStyle.Proofs.Clean
import TwigStyle.Proofs.Gaps

/-!
# What a signature says

A cache may be reused as long as the signature of the rules stays the same, so the signature has to
say everything about a ruleset that can be seen in what it reports.  It is one line: the signatures
of the rules with commas between them, and after a rule that is limited to paths its patterns, with
`|` between them, in `@[` and `]`.

Read from the left, the line gives the rules back as long as the patterns can be read.  The name and
options of a rule hold neither `,` nor `@`.  A list of patterns ends at a `]` that is followed by a
rule or by nothing, and it is cut at every `|`; so a pattern can be misread only if it holds a `|`,
or a `],` with the name of a rule behind it.  Without such patterns (`Rule.Legible`) the signature
decides the ruleset (`Ruleset.eq_of_signature_eq`).
-/

namespace TwigStyle

/-! ### Texts with a mark in them -/

section Marks

variable {α : Type} {s t x w : List α} {c : α}

theorem prefix_of_prefix_append_cons (hw : c ∉ w) (h : w <+: s ++ c :: x) : w <+: s := by
  rw [List.append_cons] at h
  rcases List.prefix_or_prefix_of_prefix h (List.prefix_append (s ++ [c]) x) with h | h
  · rcases List.prefix_concat_iff.1 h with h | h
    · exact absurd (h ▸ List.mem_append_right s List.mem_cons_self) hw
    · exact h
  · exact absurd (h.subset (List.mem_append_right s List.mem_cons_self)) hw

theorem infix_of_infix_append_cons (hw : c ∉ w) (h : w <:+: s ++ c :: x) :
    w <:+: s ∨ w <:+: x := by
  obtain ⟨t, hwt, ht⟩ := List.infix_iff_prefix_suffix.1 h
  rcases List.suffix_or_suffix_of_suffix ht (List.suffix_append s (c :: x)) with ht | ⟨s', rfl⟩
  · rcases List.suffix_cons_iff.1 ht with rfl | ht
    · have hnil : w <+: [] := prefix_of_prefix_append_cons hw hwt
      exact .inl (List.prefix_nil.1 hnil ▸ List.nil_infix)
    · exact .inr (hwt.isInfix.trans ht.isInfix)
  · have hs' : s' <:+ s := List.suffix_append_self_iff.1 ht
    exact .inl ((prefix_of_prefix_append_cons hw hwt).isInfix.trans hs'.isInfix)

theorem intercalate_cons (sep : List α) (s : List α) (rest : List (List α)) :
    sep.intercalate (s :: rest) = s ++ rest.flatMap (sep ++ ·) := by
  induction rest generalizing s with
  | nil => simp
  | cons t rest ih => simp [List.intercalate_cons_cons, ih]

theorem exists_infix_of_infix_intercalate {texts : List (List α)} (hne : w ≠ []) (hw : c ∉ w)
    (h : w <:+: [c].intercalate texts) : ∃ t ∈ texts, w <:+: t := by
  induction texts with
  | nil => exact absurd (List.infix_nil.1 h) hne
  | cons t texts ih =>
    cases texts with
    | nil => exact ⟨t, List.mem_cons_self, by simpa using h⟩
    | cons u texts =>
      rw [List.intercalate_cons_cons, List.append_assoc] at h
      rcases infix_of_infix_append_cons hw h with h | h
      · exact ⟨t, List.mem_cons_self, h⟩
      · obtain ⟨t', ht', h⟩ := ih h
        exact ⟨t', List.mem_cons_of_mem t ht', h⟩

end Marks

/-! ### Rules as configurations make them -/

namespace Rule

variable {r r' : Rule}

/-- A rule of the library without a path limit. -/
def isPlain : Rule → Bool
  | rename _ | marker _ | spacing _ | script _ | onPaths _ _ => false
  | _ => true

/-- The patterns of a path limit. -/
def patterns : Rule → List String
  | onPaths _ globs => globs.map (·.text)
  | _ => []

/-- The rules that a configuration can have: those of the library, as they are or with patterns. -/
inductive IsConfigured : Rule → Prop
  | plain {r : Rule} (h : r.isPlain = true) : IsConfigured r
  | limited {r : Rule} {paths : List String} {globs : List Glob} (h : r.isPlain = true)
      (hpaths : paths ≠ []) (hglobs : Glob.parseAll paths = .ok globs) :
    IsConfigured (.onPaths r globs)

/-- No pattern can be misread: there is no `|` in it, and no `],` with the name of a rule behind. -/
def Legible (r : Rule) : Prop :=
  ∀ pattern ∈ r.patterns, '|' ∉ pattern.toList ∧
    ∀ rule ∈ Rule.all, ¬("],".toList ++ rule.name.toList <:+: pattern.toList)

instance (r : Rule) : Decidable r.Legible := inferInstanceAs (Decidable (∀ _ ∈ _, _))

/-! Names and options. -/

/-- Neither of the two marks that can follow the name and options of a rule. -/
def isInner (c : Char) : Bool := c != ',' && c != '@'

theorem isInner_of_isDigit {c : Char} (h : c.isDigit = true) : isInner c = true := by
  simp only [isInner, Bool.and_eq_true, bne_iff_ne]
  constructor <;> (rintro rfl; revert h; decide)

theorem toList_signature_indent (width : Nat) :
    (indent width).signature.toList =
      "Indent(spaces=".toList ++ (Nat.toDigits 10 width ++ ")".toList) := by
  have htext : (indent width).signature = "Indent(spaces=" ++ width.repr ++ ")" := rfl
  rw [htext, String.toList_append, String.toList_append, Nat.toList_repr, List.append_assoc]

theorem isInner_of_mem_signature (h : r.isPlain = true) :
    ∀ c ∈ r.signature.toList, isInner c = true := by
  rw [← List.all_eq_true]
  cases r with
  | rename | marker | spacing | script | onPaths => cases h
  | variableName convention => cases convention <;> decide
  | indent width =>
    have hname : "Indent(spaces=".toList.all isInner = true := by decide
    have hdigits : (Nat.toDigits 10 width).all isInner = true :=
      List.all_eq_true.2 fun c hc =>
        isInner_of_isDigit (Nat.isDigit_of_mem_toDigits (by decide) (by decide) hc)
    have hend : ")".toList.all isInner = true := by decide
    rw [toList_signature_indent, List.all_append, List.all_append, hname, hdigits, hend]
    rfl
  | _ => decide

theorem signature_begins_with_name (h : r.isPlain = true) :
    ∃ rule ∈ Rule.all, rule.name.toList <+: r.signature.toList := by
  cases r with
  | rename | marker | spacing | script | onPaths => cases h
  | variableName convention =>
    exact ⟨.variableName .snake, by decide, by cases convention <;> decide⟩
  | indent width =>
    refine ⟨.indent Standard.indentWidth, by decide, ?_⟩
    rw [toList_signature_indent]
    exact List.IsPrefix.trans (by decide) (List.prefix_append _ _)
  | delimiterSpacing => exact ⟨.delimiterSpacing, by decide, by decide⟩
  | operatorSpacing => exact ⟨.operatorSpacing, by decide, by decide⟩
  | punctuationSpacing => exact ⟨.punctuationSpacing, by decide, by decide⟩
  | blankEof => exact ⟨.blankEof, by decide, by decide⟩
  | trailingSpace => exact ⟨.trailingSpace, by decide, by decide⟩

theorem indent_of_signature_eq {width width' : Nat}
    (h : (indent width).signature = (indent width').signature) : width = width' := by
  have htext := congrArg String.toList h
  rw [toList_signature_indent, toList_signature_indent] at htext
  have hdigits : Nat.toDigits 10 width = Nat.toDigits 10 width' :=
    List.append_cancel_right (List.append_cancel_left htext)
  rw [← Nat.ofDigitChars_toDigits (b := 10) (n := width) (by decide) (by decide), hdigits,
    Nat.ofDigitChars_toDigits (by decide) (by decide)]

theorem takeWhile_signature (h : r.isPlain = true) :
    r.signature.toList.takeWhile (· != '(') = r.name.toList := by
  cases r with
  | rename | marker | spacing | script | onPaths => cases h
  | variableName convention => cases convention <;> decide
  | indent width =>
    have hopen : "Indent(spaces=".toList = "Indent".toList ++ '(' :: "spaces=".toList := by decide
    have hname : ∀ c ∈ "Indent".toList, (c != '(') = true := List.all_eq_true.1 (by decide)
    rw [toList_signature_indent, hopen, List.append_assoc, List.takeWhile_append_of_pos hname,
      List.cons_append, List.takeWhile_cons_of_neg (by decide), List.append_nil]
    rfl
  | _ => decide

theorem eq_of_name_eq (hr : r.isPlain = true) (hr' : r'.isPlain = true) (h : r.name = r'.name) :
    r = r' ∨ (∃ c c', r = .variableName c ∧ r' = .variableName c') ∨
      ∃ width width', r = .indent width ∧ r' = .indent width' := by
  cases r <;> cases r' <;> simp [isPlain, name] at hr hr' h ⊢

theorem eq_of_signature_eq (hr : r.isPlain = true) (hr' : r'.isPlain = true)
    (h : r.signature = r'.signature) : r = r' := by
  have hname : r.name = r'.name := by
    rw [← String.toList_inj, ← takeWhile_signature hr, ← takeWhile_signature hr', h]
  rcases eq_of_name_eq hr hr' hname with h' | ⟨c, c', rfl, rfl⟩ | ⟨width, width', rfl, rfl⟩
  · exact h'
  · revert h
    cases c <;> cases c' <;> decide
  · rw [indent_of_signature_eq h]

/-! Path limits. -/

theorem toList_signature_onPaths (r : Rule) (globs : List Glob) (x : List Char) :
    (onPaths r globs).signature.toList ++ x = r.signature.toList ++ '@' :: '[' ::
      (['|'].intercalate ((onPaths r globs).patterns.map String.toList) ++ ']' :: x) := by
  have htext : (onPaths r globs).signature =
      r.signature ++ "@[" ++ String.intercalate "|" (onPaths r globs).patterns ++ "]" := rfl
  simp [htext, String.toList_append, String.toList_intercalate]

theorem patterns_of_parseAll {paths : List String} {globs : List Glob} (r : Rule)
    (h : Glob.parseAll paths = .ok globs) : (onPaths r globs).patterns = paths := by
  change globs.map (·.text) = paths
  induction paths generalizing globs with
  | nil =>
    cases h
    rfl
  | cons path paths ih =>
    unfold Glob.parseAll at h
    split at h
    · cases h
    · cases h
    · rename_i g gs hg hgs
      cases h
      have htext : g.text = path := by
        unfold Glob.parse at hg
        split at hg
        · cases hg
          rfl
        · cases hg
      rw [List.map_cons, ih hgs, htext]

theorem IsConfigured.begins_with_name (h : r.IsConfigured) :
    ∃ rule ∈ Rule.all, rule.name.toList <+: r.signature.toList := by
  cases h with
  | plain h => exact signature_begins_with_name h
  | @limited r _ globs h =>
    obtain ⟨rule, hrule, hbegins⟩ := signature_begins_with_name h
    refine ⟨rule, hrule, hbegins.trans ?_⟩
    rw [← List.append_nil (onPaths r globs).signature.toList, toList_signature_onPaths]
    exact List.prefix_append _ _

theorem bracket_notMem_name {rule : Rule} (h : rule ∈ Rule.all) :
    ']' ∉ ',' :: rule.name.toList := by
  revert rule
  decide

end Rule

namespace Ruleset

variable {rules : List Rule}

/-- The signatures of further rules, each behind a comma. -/
def furtherSignatures (rules : List Rule) : List Char :=
  rules.flatMap fun r => ',' :: r.signature.toList

theorem toList_signature_cons (r : Rule) (rules : List Rule) :
    (signature ⟨r :: rules⟩).toList = r.signature.toList ++ furtherSignatures rules := by
  have htext : (signature ⟨r :: rules⟩).toList =
      [','].intercalate (r.signature.toList :: rules.map fun r => r.signature.toList) := by
    rw [signature, String.toList_intercalate, List.map_map]
    rfl
  rw [htext, intercalate_cons, List.flatMap_map]
  rfl

theorem isInner_head_furtherSignatures (rules : List Rule) :
    ∀ c ∈ (furtherSignatures rules).head?, Rule.isInner c = false := by
  cases rules with
  | nil => exact nofun
  | cons r rules =>
    rintro c ⟨⟩
    rfl

/-- Behind the end of a pattern list there is a rule or nothing, so that a piece up to a later end
    holds the name of a rule. -/
theorem exists_name_begins (hrules : ∀ r ∈ rules, r.IsConfigured) {u x : List Char} (hne : u ≠ [])
    (h : ']' :: furtherSignatures rules = u ++ ']' :: x) :
    ∃ rule ∈ Rule.all, "],".toList ++ rule.name.toList <+: u := by
  obtain ⟨c, v, rfl⟩ := List.exists_cons_of_ne_nil hne
  rw [List.cons_append] at h
  obtain ⟨rfl, hrest⟩ := List.cons.inj h
  clear h
  cases rules with
  | nil => simp [furtherSignatures] at hrest
  | cons r rules =>
    obtain ⟨rule, hrule, hbegins⟩ := (hrules r List.mem_cons_self).begins_with_name
    refine ⟨rule, hrule, ?_⟩
    have hv : ',' :: rule.name.toList <+: v ++ ']' :: x := by
      rw [← hrest]
      exact (List.prefix_cons_inj ',').2 (hbegins.trans (List.prefix_append _ _))
    exact (List.prefix_cons_inj ']').2
      (prefix_of_prefix_append_cons (Rule.bracket_notMem_name hrule) hv)

theorem patterns_append_inj {rules' : List Rule} (hrules : ∀ r ∈ rules, r.IsConfigured)
    (hrules' : ∀ r ∈ rules', r.IsConfigured) {list list' : List Char}
    (hlist : ∀ rule ∈ Rule.all, ¬("],".toList ++ rule.name.toList <:+: list))
    (hlist' : ∀ rule ∈ Rule.all, ¬("],".toList ++ rule.name.toList <:+: list'))
    (h : list ++ ']' :: furtherSignatures rules = list' ++ ']' :: furtherSignatures rules') :
    list = list' ∧ furtherSignatures rules = furtherSignatures rules' := by
  -- The longer list would hold the name of the rule that follows the shorter one.
  have hshort : ∀ {rules : List Rule} {x list u : List Char}, (∀ r ∈ rules, r.IsConfigured) →
      (∀ rule ∈ Rule.all, ¬("],".toList ++ rule.name.toList <:+: list ++ u)) →
      ']' :: furtherSignatures rules = u ++ ']' :: x → u = [] := by
    intro rules x list u hrules hlist h
    apply Classical.byContradiction
    intro hne
    obtain ⟨rule, hrule, hbegins⟩ := exists_name_begins hrules hne h
    exact hlist rule hrule (hbegins.isInfix.trans (List.suffix_append list u).isInfix)
  have heq : list = list' := by
    rcases List.append_eq_append_iff.1 h with ⟨u, rfl, hu⟩ | ⟨u, rfl, hu⟩
    · rw [hshort hrules hlist' hu, List.append_nil]
    · rw [hshort hrules' hlist hu, List.append_nil]
  subst heq
  exact ⟨rfl, (List.cons.inj (List.append_cancel_left h)).2⟩

end Ruleset

namespace Rule

variable {r : Rule}

theorem Legible.patterns (h : r.Legible) :
    ∀ rule ∈ Rule.all, ¬("],".toList ++ rule.name.toList <:+:
      ['|'].intercalate (r.patterns.map String.toList)) := by
  intro rule hrule hinfix
  have hbar : ∀ rule ∈ Rule.all, '|' ∉ "],".toList ++ rule.name.toList := by decide
  obtain ⟨t, ht, hinfix⟩ := exists_infix_of_infix_intercalate (List.cons_ne_nil _ _)
    (hbar rule hrule) hinfix
  obtain ⟨pattern, hpattern, rfl⟩ := List.mem_map.1 ht
  exact (h pattern hpattern).2 rule hrule hinfix

theorem patterns_inj {r' : Rule} (h : r.Legible) (h' : r'.Legible) (hne : r.patterns ≠ [])
    (hne' : r'.patterns ≠ [])
    (heq : ['|'].intercalate (r.patterns.map String.toList) =
      ['|'].intercalate (r'.patterns.map String.toList)) :
    r.patterns = r'.patterns := by
  have hcut : ∀ {r : Rule}, r.Legible → r.patterns ≠ [] →
      (['|'].intercalate (r.patterns.map String.toList)).splitOn '|' =
        r.patterns.map String.toList := by
    intro r h hne
    refine List.splitOn_intercalate '|' ?_ (by simpa using hne)
    intro t ht
    obtain ⟨pattern, hpattern, rfl⟩ := List.mem_map.1 ht
    exact (h pattern hpattern).1
  have htexts : r.patterns.map String.toList = r'.patterns.map String.toList := by
    rw [← hcut h hne, heq, hcut h' hne']
  exact (List.map_inj_right fun s t hst => String.toList_inj.1 hst).1 htexts

end Rule

namespace Ruleset

variable {rules rules' : List Rule} {r : Rule}

theorem signature_append_inj {r' : Rule} (hr : r.IsConfigured) (hr' : r'.IsConfigured)
    (hlegible : r.Legible) (hlegible' : r'.Legible) (hrules : ∀ r ∈ rules, r.IsConfigured)
    (hrules' : ∀ r ∈ rules', r.IsConfigured)
    (h : r.signature.toList ++ furtherSignatures rules =
      r'.signature.toList ++ furtherSignatures rules') :
    r = r' ∧ furtherSignatures rules = furtherSignatures rules' := by
  have hcut : ∀ {r r' : Rule} {x y : List Char}, r.isPlain = true → r'.isPlain = true →
      (∀ c ∈ x.head?, Rule.isInner c = false) → (∀ c ∈ y.head?, Rule.isInner c = false) →
      r.signature.toList ++ x = r'.signature.toList ++ y → r = r' ∧ x = y := by
    intro r r' x y hr hr' hx hy h
    obtain ⟨hsignature, hrest⟩ := append_inj_of_boundary (Rule.isInner_of_mem_signature hr)
      (Rule.isInner_of_mem_signature hr') hx hy h
    exact ⟨Rule.eq_of_signature_eq hr hr' (String.toList_inj.1 hsignature), hrest⟩
  have hat : ∀ x : List Char, ∀ c ∈ ('@' :: x).head?, Rule.isInner c = false := by
    rintro x c ⟨⟩
    rfl
  cases hr with
  | plain hr =>
    cases hr' with
    | plain hr' =>
      exact hcut hr hr' (isInner_head_furtherSignatures rules)
        (isInner_head_furtherSignatures rules') h
    | limited hr' =>
      rw [Rule.toList_signature_onPaths] at h
      have hrest := (hcut hr hr' (isInner_head_furtherSignatures rules) (hat _) h).2
      cases rules <;> simp [furtherSignatures] at hrest
  | @limited r paths globs hr hpaths hglobs =>
    cases hr' with
    | plain hr' =>
      rw [Rule.toList_signature_onPaths] at h
      have hrest := (hcut hr hr' (hat _) (isInner_head_furtherSignatures rules') h).2
      cases rules' <;> simp [furtherSignatures] at hrest
    | @limited r' paths' globs' hr' hpaths' hglobs' =>
      rw [Rule.toList_signature_onPaths, Rule.toList_signature_onPaths] at h
      obtain ⟨rfl, hrest⟩ := hcut hr hr' (hat _) (hat _) h
      obtain ⟨hlist, hfurther⟩ := patterns_append_inj hrules hrules' hlegible.patterns
        hlegible'.patterns (List.cons.inj (List.cons.inj hrest).2).2
      have hpatterns := Rule.patterns_of_parseAll r hglobs
      have hpatterns' := Rule.patterns_of_parseAll r hglobs'
      have heq := Rule.patterns_inj hlegible hlegible' (by rwa [hpatterns]) (by rwa [hpatterns'])
        hlist
      rw [hpatterns, hpatterns'] at heq
      subst heq
      rw [hglobs] at hglobs'
      cases hglobs'
      exact ⟨rfl, hfurther⟩

theorem eq_of_furtherSignatures_eq (hrules : ∀ r ∈ rules, r.IsConfigured)
    (hrules' : ∀ r ∈ rules', r.IsConfigured) (hlegible : ∀ r ∈ rules, r.Legible)
    (hlegible' : ∀ r ∈ rules', r.Legible) (h : furtherSignatures rules = furtherSignatures rules') :
    rules = rules' := by
  induction rules generalizing rules' with
  | nil =>
    cases rules' with
    | nil => rfl
    | cons r' rules' => cases h
  | cons r rules ih =>
    cases rules' with
    | nil => cases h
    | cons r' rules' =>
      rw [List.forall_mem_cons] at hrules hrules' hlegible hlegible'
      have hline : r.signature.toList ++ furtherSignatures rules =
          r'.signature.toList ++ furtherSignatures rules' := (List.cons.inj h).2
      obtain ⟨rfl, hfurther⟩ := signature_append_inj hrules.1 hrules'.1 hlegible.1 hlegible'.1
        hrules.2 hrules'.2 hline
      rw [ih hrules.2 hrules'.2 hlegible.2 hlegible'.2 hfurther]

theorem signature_ne_empty (hr : r.IsConfigured) : signature ⟨r :: rules⟩ ≠ "" := by
  intro hempty
  have hline := toList_signature_cons r rules
  rw [hempty] at hline
  obtain ⟨rule, hrule, hbegins⟩ := hr.begins_with_name
  have hnil : rule.name.toList = [] := by
    rw [(List.append_eq_nil_iff.1 hline.symm).1] at hbegins
    exact List.prefix_nil.1 hbegins
  have hnames : ∀ rule ∈ Rule.all, rule.name.toList ≠ [] := by decide
  exact hnames rule hrule hnil

/-- Rulesets of configurations whose patterns can be read are decided by their signatures. -/
theorem eq_of_signature_eq {rs rs' : Ruleset} (hrs : ∀ r ∈ rs.rules, r.IsConfigured)
    (hrs' : ∀ r ∈ rs'.rules, r.IsConfigured) (hlegible : ∀ r ∈ rs.rules, r.Legible)
    (hlegible' : ∀ r ∈ rs'.rules, r.Legible) (h : rs.signature = rs'.signature) : rs = rs' := by
  obtain ⟨rules⟩ := rs
  obtain ⟨rules'⟩ := rs'
  cases rules with
  | nil =>
    cases rules' with
    | nil => rfl
    | cons r' rules' =>
      exact absurd h.symm (signature_ne_empty (hrs' r' List.mem_cons_self))
  | cons r rules =>
    cases rules' with
    | nil => exact absurd h (signature_ne_empty (hrs r List.mem_cons_self))
    | cons r' rules' =>
      have hline := congrArg String.toList h
      rw [toList_signature_cons, toList_signature_cons] at hline
      have hfurther : furtherSignatures (r :: rules) = furtherSignatures (r' :: rules') :=
        congrArg (',' :: ·) hline
      exact congrArg Ruleset.mk
        (eq_of_furtherSignatures_eq hrs hrs' hlegible hlegible' hfurther)

end Ruleset

/-! ### Configurations -/

namespace Rule

variable {r : Rule} {name : String}

theorem isPlain_of_mem_all (h : r ∈ Rule.all) : r.isPlain = true := by
  revert r
  decide

theorem isPlain_of_ofSettings {s : RuleSettings} (h : ofSettings name s = .ok r) :
    r.isPlain = true := by
  unfold ofSettings at h
  split at h
  · unfold indentOf at h
    split at h
    · cases h
      rfl
    · split at h
      · cases h
      · cases h
        rfl
  · split at h
    · unfold variableNameOf at h
      split at h
      · cases h
        rfl
      · split at h
        · cases h
          rfl
        · cases h
    · split at h
      · rename_i r' hfind
        cases h
        exact isPlain_of_mem_all (List.mem_of_find?_eq_some hfind)
      · cases h

theorem IsConfigured.of_limitTo {paths : List String} {r' : Rule} (hr : r.isPlain = true)
    (h : r.limitTo name paths = .ok r') : r'.IsConfigured := by
  unfold limitTo at h
  split at h
  · cases h
    exact .plain hr
  · rename_i hpaths
    split at h
    · rename_i globs hglobs
      cases h
      exact .limited hr (fun hnil => hpaths (List.isEmpty_iff.2 hnil)) hglobs
    · cases h

end Rule

namespace Ruleset

variable {rs rs' : Ruleset} {rules : List Rule}

theorem eq_or_mem_of_mem_insert {r rule : Rule} (h : r ∈ insert rule rules) :
    r = rule ∨ r ∈ rules := by
  induction rules with
  | nil => exact .inl (List.mem_singleton.1 h)
  | cons r' rules ih =>
    unfold insert at h
    split at h
    · exact (List.mem_cons.1 h).imp_right (List.mem_cons_of_mem r')
    · rcases List.mem_cons.1 h with rfl | h
      · exact .inr List.mem_cons_self
      · exact (ih h).imp_right (List.mem_cons_of_mem r')

theorem isConfigured_addAll (hrs : ∀ r ∈ rs.rules, r.IsConfigured)
    (hrules : ∀ r ∈ rules, r.IsConfigured) : ∀ r ∈ (rs.addAll rules).rules, r.IsConfigured := by
  induction rules generalizing rs with
  | nil => exact hrs
  | cons rule rules ih =>
    rw [List.forall_mem_cons] at hrules
    have hadd : ∀ r ∈ (rs.add rule).rules, r.IsConfigured := by
      intro r hr
      rcases eq_or_mem_of_mem_insert hr with rfl | hr
      · exact hrules.1
      · exact hrs r hr
    exact ih hadd hrules.2

theorem isConfigured_configure {name : String} {s : RuleSettings}
    (hrs : ∀ r ∈ rs.rules, r.IsConfigured) (h : rs.configure name s = .ok rs') :
    ∀ r ∈ rs'.rules, r.IsConfigured := by
  unfold configure at h
  split at h
  · cases h
    exact fun r hr => hrs r (List.mem_of_mem_eraseP hr)
  · split at h
    · cases h
    · rename_i rule hrule
      split at h
      · cases h
      · rename_i rule' hrule'
        cases h
        intro r hr
        rcases eq_or_mem_of_mem_insert hr with rfl | hr
        · exact .of_limitTo (Rule.isPlain_of_ofSettings hrule) hrule'
        · exact hrs r hr

theorem isConfigured_configureAll {settings : List (String × RuleSettings)}
    (hrs : ∀ r ∈ rs.rules, r.IsConfigured) (h : rs.configureAll settings = .ok rs') :
    ∀ r ∈ rs'.rules, r.IsConfigured := by
  induction settings generalizing rs with
  | nil =>
    cases h
    exact hrs
  | cons entry settings ih =>
    unfold configureAll at h
    split at h
    · cases h
    · rename_i rs₁ hconfigure
      exact ih (isConfigured_configure hrs hconfigure) h

end Ruleset

theorem Standard.isPlain_of_mem_rules {standard : Standard} {r : Rule}
    (h : r ∈ standard.rules) : r.isPlain = true := by
  revert r
  cases standard <;> decide

theorem Config.isConfigured_of_ruleset {c : Config} {rs : Ruleset} (h : c.ruleset = .ok rs) :
    ∀ r ∈ rs.rules, r.IsConfigured := by
  unfold Config.ruleset at h
  split at h
  · cases h
  · rename_i rules hrules
    have hplain : ∀ r ∈ rules, r.IsConfigured := by
      unfold Config.standardRules at hrules
      split at hrules
      · cases hrules
        exact fun r hr => .plain (Standard.isPlain_of_mem_rules hr)
      · split at hrules
        · cases hrules
          exact fun r hr => .plain (Standard.isPlain_of_mem_rules hr)
        · cases hrules
    have hempty : ∀ r ∈ ({} : Ruleset).rules, r.IsConfigured := fun r hr => by cases hr
    exact Ruleset.isConfigured_configureAll (Ruleset.isConfigured_addAll hempty hplain) h

/-- **The signature is sound.** If the rulesets of two configurations have the same signature, and
    their patterns can be read, they find the same violations in every file of every project. -/
theorem signatureOf_sound {c c' : Config} {rs rs' : Ruleset} (h : c.ruleset = .ok rs)
    (h' : c'.ruleset = .ok rs') (hlegible : ∀ r ∈ rs.rules, r.Legible)
    (hlegible' : ∀ r ∈ rs'.rules, r.Legible)
    (hsignature : Cache.signatureOf rs = Cache.signatureOf rs') (l : Linter) (path : Path)
    (content : List Char) :
    { l with ruleset := rs }.violationsIn path content =
      { l with ruleset := rs' }.violationsIn path content := by
  have hrules : rs.signature = rs'.signature := by
    rw [← String.toList_inj] at hsignature ⊢
    simp only [Cache.signatureOf, String.toList_append] at hsignature
    exact List.append_cancel_left hsignature
  rw [Ruleset.eq_of_signature_eq (Config.isConfigured_of_ruleset h)
    (Config.isConfigured_of_ruleset h') hlegible hlegible' hrules]

/-- The standard and the width of tabs are given in one configuration and left out in the other. -/
theorem signatureOf_sound_defaults :
    let paths : List String := ["a,b.twig", "c].twig"]
    let c : Config := { rules := [("Indent", { paths })] }
    let c' : Config := {
      standard := some "TwigCsFixer"
      rules := [("Indent", { paths, options := [("spaces", .integer 4)] })] }
    ∃ rs rs', c.ruleset = .ok rs ∧ c'.ruleset = .ok rs' ∧
      ∀ (l : Linter) (path : Path) (content : List Char),
        { l with ruleset := rs }.violationsIn path content =
          { l with ruleset := rs' }.violationsIn path content := by
  intro paths c c'
  let globs : List Glob := paths.map fun path => ⟨path, path.toList.map .char⟩
  let rs : Ruleset :=
    ⟨Standard.languageRules ++ [.blankEof, .onPaths (.indent 4) globs, .trailingSpace]⟩
  have hc : c.ruleset = .ok rs := eq_ok_of_toOption (by decide +kernel)
  have hc' : c'.ruleset = .ok rs := eq_ok_of_toOption (by decide +kernel)
  have hlegible : ∀ r ∈ rs.rules, r.Legible := by decide +kernel
  exact ⟨rs, rs, hc, hc', signatureOf_sound hc hc' hlegible hlegible rfl⟩

/-- The limit to `a.twig|b.twig`, which is one pattern, reads as the limit to `a.twig` and `b.twig`;
    a tab in `a.twig` is an error only under the latter. -/
theorem signatureOf_misread :
    let rule (paths : List String) : Config := { rules := [("Indent", { paths })] }
    let errors (c : Config) : Option Nat := c.ruleset.toOption.map fun rs =>
      (Linter.violationsIn ⟨⟨"/"⟩, rs, [], [], {}, OperatorTable.default⟩ ⟨"/a.twig"⟩
        "\tx\n".toList).length
    let signature (c : Config) : Option String := c.ruleset.toOption.map Cache.signatureOf
    (rule ["a.twig|b.twig"]).ruleset.isOk = true ∧
      signature (rule ["a.twig|b.twig"]) = signature (rule ["a.twig", "b.twig"]) ∧
      errors (rule ["a.twig|b.twig"]) = some 0 ∧ errors (rule ["a.twig", "b.twig"]) = some 1 := by
  decide +kernel

/-! A pattern with the name of a rule behind `],` reads as the end of its list and the next rule. -/

example :
    let limited (r : Rule) (path : String) : Option Rule := (r.limitTo r.name [path]).toOption
    let signature (rules : List (Option Rule)) : Option String :=
      if rules.all (·.isSome) then some (Ruleset.signature ⟨rules.filterMap id⟩) else none
    let line : String := "BlankEof@[x],Indent(spaces=4)@[y]z]"
    signature [limited .blankEof "x],Indent(spaces=4)@[y]z"] = some line ∧
      signature [limited .blankEof "x", limited (.indent 4) "y]z"] = some line := by
  decide +kernel

end TwigStyle
