import TwigStyle.Config.Ruleset

/-!
# The ruleset of a configuration

A configuration names a standard and has settings for some rules.  Its ruleset is put together from
both, entry by entry, with removals, replacements and additions on the way and an early end at the
first entry that makes no sense.  What comes out can be said without going through the entries:

* `Rule.Made` and `Rule.Limited` say which rule the settings of a name ask for, `Rule.Faulty` what is
  wrong with settings that ask for none.

* `Config.Refused` says when there is no ruleset and why, `Config.Assembled` what the ruleset is.

An entry changes the rule of its own name only, so what a row of entries leaves is known entry by
entry (`Ruleset.Applied`), and the first error is the one of the least name (`configureAll_error_iff`).
-/

namespace TwigStyle

/-! ### What the settings of a rule ask for -/

namespace Rule

variable {s : RuleSettings} {name : String} {r : Rule} {e : RulesetError} {paths : List String}

/-- The rule of a name with the options that are set, or else the usual ones. -/
inductive Made (s : RuleSettings) : String → Rule → Prop
  | plain {r : Rule} (hall : r ∈ Rule.all) (hindent : r.name ≠ "Indent")
      (hnaming : r.name ≠ "VariableName") : Made s r.name r
  | usualIndent (hnone : s.options.lookup "spaces" = none) :
    Made s "Indent" (.indent Standard.indentWidth)
  | indent {v : Toml} {width : Nat} (hsome : s.options.lookup "spaces" = some v)
      (hwidth : v.nat? = some width) (hpos : 0 < width) : Made s "Indent" (.indent width)
  | usualNaming (hnone : s.options.lookup "case" = none) :
    Made s "VariableName" (.variableName .snake)
  | naming {v : Toml} {convention : NamingCase} (hsome : s.options.lookup "case" = some v)
      (hlabel : v.string? = some convention.label) :
    Made s "VariableName" (.variableName convention)

/-- A rule with the limit that paths are: none of them is no limit. -/
inductive Limited (r : Rule) (paths : List String) : Rule → Prop
  | everywhere (hnil : paths = []) : Limited r paths r
  | onPaths {globs : List Glob} (hne : paths ≠ []) (hglobs : paths.mapM Glob.parse = .ok globs) :
    Limited r paths (.onPaths r globs)

/-- What is wrong with a name and its options. -/
inductive Misset (s : RuleSettings) : String → RulesetError → Prop
  | unknown {name : String} (hall : ∀ r ∈ Rule.all, r.name ≠ name) :
    Misset s name (.unknownRule name)
  | spaces {v : Toml} (hsome : s.options.lookup "spaces" = some v)
      (hwidth : ∀ width, v.nat? = some width → width = 0) :
    Misset s "Indent" (.invalidOption "Indent" "spaces" "a positive integer")
  | case {v : Toml} (hsome : s.options.lookup "case" = some v)
      (hlabel : ∀ convention : NamingCase, v.string? ≠ some convention.label) :
    Misset s "VariableName"
      (.invalidOption "VariableName" "case" "one of snake_case, camelCase, PascalCase")

/-- What is wrong with the settings of a name: the name or an option, or else a path. -/
inductive Faulty (s : RuleSettings) (name : String) : RulesetError → Prop
  | options {e : RulesetError} (h : Misset s name e) : Faulty s name e
  | paths {r : Rule} {cause : Glob.Error} (hmade : Made s name r)
      (hparse : s.paths.mapM Glob.parse = .error cause) : Faulty s name (.invalidPath name cause)

/-- An entry that is switched on asks for no rule. -/
def AtFault (entry : String × RuleSettings) : Prop :=
  entry.2.isEnabled = true ∧ ∃ e, Faulty entry.2 entry.1 e

/-- The rule that the settings of a name ask for, or what is wrong with them. -/
def configured (name : String) (s : RuleSettings) : Except RulesetError Rule :=
  match ofSettings name s with
  | .error e => .error e
  | .ok r => r.limitTo name s.paths

theorem made_or_misset (name : String) (s : RuleSettings) :
    (∃ r, Made s name r) ∨ ∃ e, Misset s name e := by
  by_cases hall : ∃ r ∈ Rule.all, r.name = name
  · obtain ⟨r, hr, rfl⟩ := hall
    by_cases hindent : r.name = "Indent"
    · rw [hindent]
      cases hlookup : s.options.lookup "spaces" with
      | none => exact .inl ⟨_, .usualIndent hlookup⟩
      | some v =>
        by_cases hwidth : ∃ width, v.nat? = some width ∧ 0 < width
        · obtain ⟨width, hwidth, hpos⟩ := hwidth
          exact .inl ⟨_, .indent hlookup hwidth hpos⟩
        · refine .inr ⟨_, .spaces hlookup ?_⟩
          intro width hv
          exact Nat.eq_zero_of_not_pos fun hpos => hwidth ⟨width, hv, hpos⟩
    · by_cases hnaming : r.name = "VariableName"
      · rw [hnaming]
        cases hlookup : s.options.lookup "case" with
        | none => exact .inl ⟨_, .usualNaming hlookup⟩
        | some v =>
          by_cases hlabel : ∃ convention : NamingCase, v.string? = some convention.label
          · obtain ⟨convention, hlabel⟩ := hlabel
            exact .inl ⟨_, .naming hlookup hlabel⟩
          · refine .inr ⟨_, .case hlookup ?_⟩
            intro convention hv
            exact hlabel ⟨convention, hv⟩
      · exact .inl ⟨r, .plain hr hindent hnaming⟩
  · refine .inr ⟨_, .unknown ?_⟩
    intro r hr hname
    exact hall ⟨r, hr, hname⟩

theorem find?_all (h : r ∈ Rule.all) : Rule.all.find? (·.name == r.name) = some r := by
  revert r
  decide

theorem ofLabel?_label (convention : NamingCase) :
    NamingCase.ofLabel? convention.label = some convention := by
  cases convention <;> decide

theorem label_of_ofLabel? {label : String} {convention : NamingCase}
    (h : NamingCase.ofLabel? label = some convention) : convention.label = label := by
  simpa using List.find?_some h

theorem ofSettings_of_made (h : Made s name r) : ofSettings name s = .ok r := by
  cases h with
  | plain hall hindent hnaming => simp only [ofSettings, if_neg hindent, if_neg hnaming, find?_all hall]
  | usualIndent hnone => simp [ofSettings, indentOf, hnone]
  | indent hsome hwidth hpos =>
    obtain ⟨width, rfl⟩ := Nat.exists_eq_add_one.2 hpos
    simp [ofSettings, indentOf, RuleSettings.natOption, hsome, hwidth]
  | usualNaming hnone => simp [ofSettings, variableNameOf, hnone]
  | naming hsome hlabel =>
    simp [ofSettings, variableNameOf, RuleSettings.textOption, hsome, hlabel, ofLabel?_label]

theorem ofSettings_of_misset (h : Misset s name e) : ofSettings name s = .error e := by
  cases h with
  | unknown hall =>
    have hindent : name ≠ "Indent" :=
      fun heq => hall (.indent Standard.indentWidth) (by decide) heq.symm
    have hnaming : name ≠ "VariableName" :=
      fun heq => hall (.variableName .snake) (by decide) heq.symm
    have hnone : Rule.all.find? (·.name == name) = none :=
      List.find?_eq_none.2 fun r hr => by simpa using hall r hr
    simp only [ofSettings, if_neg hindent, if_neg hnaming, hnone]
  | @spaces v hsome hwidth =>
    have hzero : s.natOption "spaces" 0 = 0 := by
      cases hv : v.nat? with
      | none => simp [RuleSettings.natOption, hsome, hv]
      | some width => simp [RuleSettings.natOption, hsome, hv, hwidth width hv]
    simp [ofSettings, indentOf, hsome, hzero]
  | @case v hsome hlabel =>
    have hnone : NamingCase.ofLabel? (s.textOption "case" "") = none := by
      cases hv : v.string? with
      | none =>
        simp only [RuleSettings.textOption, hsome, hv, Option.bind_some, Option.getD_none]
        decide
      | some label =>
        simp only [RuleSettings.textOption, hsome, hv, Option.bind_some, Option.getD_some]
        cases hconvention : NamingCase.ofLabel? label with
        | none => rfl
        | some convention =>
          rw [← label_of_ofLabel? hconvention] at hv
          exact absurd hv (hlabel convention)
    simp [ofSettings, variableNameOf, hsome, hnone]
    decide

theorem ofSettings_ok_iff : ofSettings name s = .ok r ↔ Made s name r := by
  constructor
  · intro h
    rcases made_or_misset name s with ⟨r', hmade⟩ | ⟨e, hmisset⟩
    · rw [ofSettings_of_made hmade] at h
      cases h
      exact hmade
    · rw [ofSettings_of_misset hmisset] at h
      cases h
  · exact ofSettings_of_made

theorem ofSettings_error_iff : ofSettings name s = .error e ↔ Misset s name e := by
  constructor
  · intro h
    rcases made_or_misset name s with ⟨r, hmade⟩ | ⟨e', hmisset⟩
    · rw [ofSettings_of_made hmade] at h
      cases h
    · rw [ofSettings_of_misset hmisset] at h
      cases h
      exact hmisset
  · exact ofSettings_of_misset

theorem parseAll_eq_mapM (paths : List String) : Glob.parseAll paths = paths.mapM Glob.parse := by
  induction paths with
  | nil => rfl
  | cons text paths ih =>
    rw [Glob.parseAll, List.mapM_cons, ih]
    cases Glob.parse text with
    | error e => rfl
    | ok g => cases paths.mapM Glob.parse <;> rfl

theorem limitTo_ok_iff {r' : Rule} : r.limitTo name paths = .ok r' ↔ Limited r paths r' := by
  constructor
  · intro h
    unfold limitTo at h
    split at h
    · rename_i hnil
      cases h
      exact .everywhere (List.isEmpty_iff.1 hnil)
    · rename_i hne
      rw [parseAll_eq_mapM] at h
      split at h
      · rename_i globs hglobs
        cases h
        exact .onPaths (fun hnil => hne (List.isEmpty_iff.2 hnil)) hglobs
      · cases h
  · intro h
    cases h with
    | everywhere hnil => simp [limitTo, hnil]
    | onPaths hne hglobs => simp [limitTo, parseAll_eq_mapM, hne, hglobs]

theorem limitTo_error_iff : r.limitTo name paths = .error e ↔
      ∃ cause, paths.mapM Glob.parse = .error cause ∧ e = .invalidPath name cause := by
  constructor
  · intro h
    unfold limitTo at h
    split at h
    · cases h
    · rw [parseAll_eq_mapM] at h
      split at h
      · cases h
      · rename_i cause hcause
        cases h
        exact ⟨cause, hcause, rfl⟩
  · rintro ⟨cause, hcause, rfl⟩
    have hne : paths ≠ [] := by
      rintro rfl
      cases hcause
    simp [limitTo, parseAll_eq_mapM, hne, hcause]

theorem configured_ok_iff :
    configured name s = .ok r ↔ ∃ plain, Made s name plain ∧ Limited plain s.paths r := by
  unfold configured
  constructor
  · intro h
    split at h
    · cases h
    · rename_i plain hplain
      exact ⟨plain, ofSettings_ok_iff.1 hplain, limitTo_ok_iff.1 h⟩
  · rintro ⟨plain, hmade, hlimited⟩
    rw [ofSettings_of_made hmade]
    exact limitTo_ok_iff.2 hlimited

theorem configured_error_iff : configured name s = .error e ↔ Faulty s name e := by
  unfold configured
  constructor
  · intro h
    split at h
    · rename_i e' hmisset
      cases h
      exact .options (ofSettings_error_iff.1 hmisset)
    · rename_i plain hplain
      obtain ⟨cause, hcause, rfl⟩ := limitTo_error_iff.1 h
      exact .paths (ofSettings_ok_iff.1 hplain) hcause
  · intro h
    cases h with
    | options hmisset => rw [ofSettings_of_misset hmisset]
    | paths hmade hparse =>
      rw [ofSettings_of_made hmade]
      exact limitTo_error_iff.2 ⟨_, hparse, rfl⟩

theorem name_of_configured (h : configured name s = .ok r) : r.name = name := by
  obtain ⟨plain, hmade, hlimited⟩ := configured_ok_iff.1 h
  have hplain : plain.name = name := by cases hmade <;> rfl
  cases hlimited with
  | everywhere => exact hplain
  | onPaths => exact hplain

end Rule

/-! ### What one entry does -/

namespace Ruleset

variable {rs rs' : Ruleset} {start rules : List Rule} {name : String} {s : RuleSettings} {r rule : Rule}
  {e : RulesetError} {before entries : List (String × RuleSettings)}

theorem names_insert (rule : Rule) (rules : List Rule) :
    (insert rule rules).map (·.name) = rules.map (·.name) ++
      if (rules.map (·.name)).contains rule.name then [] else [rule.name] := by
  induction rules with
  | nil => rfl
  | cons r rules ih =>
    unfold insert
    by_cases hname : r.name = rule.name
    · simp [hname]
    · have hbeq : (rule.name == r.name) = false := beq_false_of_ne (Ne.symm hname)
      rw [if_neg hname, List.map_cons, List.map_cons, ih, List.contains_cons, hbeq, Bool.false_or]
      rfl

theorem mem_insert (hnodup : (rules.map (·.name)).Nodup) (h : r ∈ insert rule rules) :
    r = rule ∨ r ∈ rules ∧ r.name ≠ rule.name := by
  induction rules with
  | nil => exact .inl (List.mem_singleton.1 h)
  | cons r' rules ih =>
    obtain ⟨hhead, htail⟩ := List.nodup_cons.1 hnodup
    unfold insert at h
    split at h
    · rename_i hname
      rcases List.mem_cons.1 h with heq | hr
      · exact .inl heq
      · refine .inr ⟨List.mem_cons_of_mem r' hr, ?_⟩
        intro heq
        exact hhead (List.mem_map.2 ⟨r, hr, heq.trans hname.symm⟩)
    · rename_i hname
      rcases List.mem_cons.1 h with rfl | hr
      · exact .inr ⟨List.mem_cons_self, hname⟩
      · exact (ih htail hr).imp_right fun ⟨hr, hne⟩ => ⟨List.mem_cons_of_mem r' hr, hne⟩

theorem names_remove (rs : Ruleset) (name : String) : (rs.remove name).names = rs.names.erase name := by
  obtain ⟨rules⟩ := rs
  simp only [names, remove]
  induction rules with
  | nil => rfl
  | cons r rules ih =>
    rw [List.eraseP_cons, List.map_cons, List.erase_cons]
    cases r.name == name with
    | true => rfl
    | false => exact congrArg (r.name :: ·) ih

theorem configure_eq (rs : Ruleset) (name : String) (s : RuleSettings) :
    rs.configure name s =
      if s.isEnabled then (Rule.configured name s).map rs.add else .ok (rs.remove name) := by
  unfold configure Rule.configured
  cases s.isEnabled with
  | false => rfl
  | true =>
    cases Rule.ofSettings name s with
    | error e => rfl
    | ok r => cases h : r.limitTo name s.paths <;> simp [h, Except.map]

/-- The names of the rules that no entry switches off. -/
def keptNames (start : List Rule) (entries : List (String × RuleSettings)) : List String :=
  (start.map (·.name)).filter fun name => (entries.lookup name).all (·.isEnabled)

/-- The names of the entries that bring a rule of a new name. -/
def newNames (start : List Rule) (entries : List (String × RuleSettings)) : List String :=
  (entries.filter fun e => e.2.isEnabled && !(start.map (·.name)).contains e.1).map (·.1)

/-- What a row of entries has left of a row of rules. -/
structure Applied (start : List Rule) (entries : List (String × RuleSettings)) (rs : Ruleset) :
    Prop where
  nodup : rs.names.Nodup
  names : rs.names = keptNames start entries ++ newNames start entries
  rules : ∀ r ∈ rs.rules,
    (∃ s, (r.name, s) ∈ entries ∧ s.isEnabled = true ∧ Rule.configured r.name s = .ok r) ∨
      r.name ∉ entries.map (·.1) ∧ r ∈ start

theorem lookup_eq_none (hname : name ∉ before.map (·.1)) : before.lookup name = none := by
  apply List.lookup_eq_none_iff.2
  intro entry hentry
  have hne : name ≠ entry.1 := fun heq => hname (heq ▸ List.mem_map_of_mem hentry)
  simpa using hne

theorem keptNames_concat (hname : name ∉ before.map (·.1)) :
    keptNames start (before ++ [(name, s)]) =
      (keptNames start before).filter fun other => s.isEnabled || other != name := by
  unfold keptNames
  rw [List.filter_filter]
  apply List.filter_congr
  intro other _
  rw [List.lookup_append]
  by_cases hother : other = name
  · simp [hother, lookup_eq_none hname]
  · have hbeq : (other == name) = false := by simpa using hother
    simp [List.lookup_cons, hbeq, hother]

theorem newNames_concat (start : List Rule) (before : List (String × RuleSettings)) (name : String)
    (s : RuleSettings) :
    newNames start (before ++ [(name, s)]) = newNames start before ++
      if s.isEnabled && !(start.map (·.name)).contains name then [name] else [] := by
  unfold newNames
  rw [List.filter_append, List.map_append]
  congr 1
  rw [List.filter_cons]
  split <;> rfl

theorem mem_newNames_iff :
    name ∈ newNames start entries ↔
      (∃ s, (name, s) ∈ entries ∧ s.isEnabled = true) ∧ ∀ r ∈ start, r.name ≠ name := by
  unfold newNames
  constructor
  · intro h
    obtain ⟨⟨name, s⟩, hentry, rfl⟩ := List.mem_map.1 h
    obtain ⟨hentry, hnew⟩ := List.mem_filter.1 hentry
    rw [Bool.and_eq_true] at hnew
    exact ⟨⟨s, hentry, hnew.1⟩, by simpa using hnew.2⟩
  · rintro ⟨⟨s, hentry, henabled⟩, hnew⟩
    refine List.mem_map.2 ⟨(name, s), List.mem_filter.2 ⟨hentry, ?_⟩, rfl⟩
    simpa [henabled] using hnew

theorem mem_of_mem_newNames (h : name ∈ newNames start entries) : name ∈ entries.map (·.1) := by
  obtain ⟨⟨s, hentry, -⟩, -⟩ := mem_newNames_iff.1 h
  exact List.mem_map_of_mem hentry

namespace Applied

theorem init (hnodup : (start.map (·.name)).Nodup) : Applied start [] ⟨start⟩ where
  nodup := hnodup
  names := by
    have hkept : keptNames start [] = start.map (·.name) := List.filter_eq_self.2 fun _ _ => rfl
    rw [hkept]
    exact (List.append_nil _).symm
  rules r hr := .inr ⟨List.not_mem_nil, hr⟩

section

variable (h : Applied start before rs)
include h

theorem rules_concat (hr : r ∈ rs.rules) (hne : r.name ≠ name) :
    (∃ s', (r.name, s') ∈ before ++ [(name, s)] ∧ s'.isEnabled = true ∧
        Rule.configured r.name s' = .ok r) ∨
      r.name ∉ (before ++ [(name, s)]).map (·.1) ∧ r ∈ start := by
  rcases h.rules r hr with ⟨s', hs', hmade⟩ | ⟨hother, hstart⟩
  · exact .inl ⟨s', List.mem_append_left _ hs', hmade⟩
  · refine .inr ⟨?_, hstart⟩
    rw [List.map_append, List.mem_append, not_or]
    exact ⟨hother, by simpa using hne⟩

theorem remove (hname : name ∉ before.map (·.1)) (hdisabled : s.isEnabled = false) :
    Applied start (before ++ [(name, s)]) (rs.remove name) := by
  constructor
  · rw [names_remove]
    exact h.nodup.erase name
  · have hnew : (newNames start before).filter (· != name) = newNames start before := by
      apply List.filter_eq_self.2
      intro other hother
      have hne : other ≠ name := fun heq => hname (heq ▸ mem_of_mem_newNames hother)
      simpa using hne
    rw [names_remove, h.nodup.erase_eq_filter, h.names, List.filter_append, hnew,
      keptNames_concat hname, newNames_concat, hdisabled]
    simp
  · intro r hr
    have hne : r.name ≠ name := by
      rintro rfl
      have hmem : r.name ∈ (rs.remove r.name).names := List.mem_map_of_mem hr
      rw [names_remove] at hmem
      exact h.nodup.not_mem_erase hmem
    exact h.rules_concat (List.mem_of_mem_eraseP hr) hne

theorem contains_names (hname : name ∉ before.map (·.1)) :
    rs.names.contains name = (start.map (·.name)).contains name := by
  have hnew : name ∉ newNames start before := fun hmem => hname (mem_of_mem_newNames hmem)
  have hkept : name ∈ keptNames start before ↔ name ∈ start.map (·.name) := by
    rw [keptNames, List.mem_filter, lookup_eq_none hname]
    exact and_iff_left rfl
  rw [Bool.eq_iff_iff, List.contains_iff_mem, List.contains_iff_mem, h.names, List.mem_append, hkept]
  exact or_iff_left hnew

theorem add (hname : name ∉ before.map (·.1)) (henabled : s.isEnabled = true)
    (hrule : Rule.configured name s = .ok rule) :
    Applied start (before ++ [(name, s)]) (rs.add rule) := by
  have hrulename := Rule.name_of_configured hrule
  have hnames : (rs.add rule).names = rs.names ++ if rs.names.contains name then [] else [name] := by
    rw [← hrulename]
    exact names_insert rule rs.rules
  constructor
  · rw [hnames]
    split
    · rw [List.append_nil]
      exact h.nodup
    · rename_i hnew
      apply List.nodup_append.2
      refine ⟨h.nodup, by simp, ?_⟩
      rintro other hother _ hmem rfl
      rw [List.mem_singleton.1 hmem] at hother
      exact hnew (List.contains_iff_mem.2 hother)
  · have hkept : (keptNames start before).filter (fun other => s.isEnabled || other != name) =
        keptNames start before := List.filter_eq_self.2 fun _ _ => by rw [henabled]; rfl
    rw [hnames, h.contains_names hname, h.names, keptNames_concat hname, hkept, newNames_concat,
      henabled, List.append_assoc]
    cases (start.map (·.name)).contains name <;> rfl
  · intro r hr
    rcases mem_insert h.nodup hr with rfl | ⟨hr, hne⟩
    · rw [hrulename]
      exact .inl ⟨s, List.mem_append_right _ List.mem_cons_self, henabled, hrule⟩
    · rw [hrulename] at hne
      exact h.rules_concat hr hne

theorem configure (hname : name ∉ before.map (·.1)) (hok : rs.configure name s = .ok rs') :
    Applied start (before ++ [(name, s)]) rs' := by
  rw [configure_eq] at hok
  cases henabled : s.isEnabled with
  | false =>
    rw [henabled] at hok
    cases hok
    exact h.remove hname henabled
  | true =>
    rw [henabled, if_pos rfl] at hok
    cases hrule : Rule.configured name s with
    | error e =>
      rw [hrule] at hok
      cases hok
    | ok rule =>
      rw [hrule] at hok
      cases hok
      exact h.add hname henabled hrule

theorem configureAll (hnodup : ((before ++ entries).map (·.1)).Nodup)
    (hok : rs.configureAll entries = .ok rs') : Applied start (before ++ entries) rs' := by
  induction entries generalizing before rs with
  | nil =>
    cases hok
    rwa [List.append_nil]
  | cons entry entries ih =>
    obtain ⟨name, s⟩ := entry
    have hname : name ∉ before.map (·.1) := by
      intro hmem
      rw [List.map_append] at hnodup
      exact (List.nodup_append.1 hnodup).2.2 name hmem name List.mem_cons_self rfl
    rw [List.append_cons] at hnodup ⊢
    unfold Ruleset.configureAll at hok
    split at hok
    · cases hok
    · rename_i rs₁ hrs₁
      exact ih (h.configure hname hrs₁) hnodup hok

end

end Applied

theorem configure_error_iff :
    rs.configure name s = .error e ↔ s.isEnabled = true ∧ Rule.Faulty s name e := by
  rw [configure_eq, ← Rule.configured_error_iff]
  cases s.isEnabled with
  | false => simp
  | true => cases Rule.configured name s <;> simp [Except.map]

/-- The first entry that is at fault decides the error. -/
theorem configureAll_error_iff (rs : Ruleset) (entries : List (String × RuleSettings)) :
    rs.configureAll entries = .error e ↔
      ∃ earlier name s later, entries = earlier ++ (name, s) :: later ∧ s.isEnabled = true ∧
        Rule.Faulty s name e ∧ ∀ entry ∈ earlier, ¬Rule.AtFault entry := by
  induction entries generalizing rs with
  | nil =>
    constructor
    · intro h
      cases h
    · rintro ⟨earlier, name, s, later, hentries, -⟩
      cases earlier <;> cases hentries
  | cons entry entries ih =>
    obtain ⟨name₀, s₀⟩ := entry
    unfold configureAll
    split
    · rename_i e₀ hfault
      have hfault₀ := configure_error_iff.1 hfault
      constructor
      · intro h
        cases h
        exact ⟨[], name₀, s₀, entries, rfl, hfault₀.1, hfault₀.2, by simp⟩
      · rintro ⟨earlier, name, s, later, hentries, henabled, hfaulty, hearlier⟩
        cases earlier with
        | nil =>
          cases hentries
          rw [← hfault]
          exact configure_error_iff.2 ⟨henabled, hfaulty⟩
        | cons entry earlier =>
          cases hentries
          exact absurd ⟨hfault₀.1, e₀, hfault₀.2⟩ (hearlier _ List.mem_cons_self)
    · rename_i rs₁ hok
      have hsound : ¬Rule.AtFault (name₀, s₀) := by
        rintro ⟨henabled, e₀, hfaulty⟩
        rw [configure_error_iff.2 ⟨henabled, hfaulty⟩] at hok
        cases hok
      rw [ih rs₁]
      constructor
      · rintro ⟨earlier, name, s, later, rfl, henabled, hfaulty, hearlier⟩
        refine ⟨(name₀, s₀) :: earlier, name, s, later, rfl, henabled, hfaulty, ?_⟩
        exact List.forall_mem_cons.2 ⟨hsound, hearlier⟩
      · rintro ⟨earlier, name, s, later, hentries, henabled, hfaulty, hearlier⟩
        cases earlier with
        | nil =>
          cases hentries
          exact absurd ⟨henabled, e, hfaulty⟩ hsound
        | cons entry earlier =>
          cases hentries
          exact ⟨earlier, name, s, later, rfl, henabled, hfaulty, (List.forall_mem_cons.1 hearlier).2⟩

/-! ### The order of the entries -/

theorem sortedSettings_perm (rules : List (String × RuleSettings)) :
    (sortedSettings rules).Perm rules := List.mergeSort_perm rules _

theorem sortedSettings_ascending {rules : List (String × RuleSettings)}
    (hnodup : (rules.map (·.1)).Nodup) : (sortedSettings rules).Pairwise fun a b => a.1 < b.1 := by
  have hle : (sortedSettings rules).Pairwise fun a b => a.1 ≤ b.1 := by
    have htrans : ∀ a b c : String × RuleSettings,
        decide (a.1 ≤ b.1) = true → decide (b.1 ≤ c.1) = true → decide (a.1 ≤ c.1) = true := by
      intro a b c hab hbc
      exact decide_eq_true (String.le_trans (of_decide_eq_true hab) (of_decide_eq_true hbc))
    have htotal : ∀ a b : String × RuleSettings,
        (decide (a.1 ≤ b.1) || decide (b.1 ≤ a.1)) = true := by
      intro a b
      simpa using String.le_total a.1 b.1
    exact (List.pairwise_mergeSort htrans htotal rules).imp of_decide_eq_true
  have hne : (sortedSettings rules).Pairwise fun a b => a.1 ≠ b.1 :=
    List.pairwise_map.1 (((sortedSettings_perm rules).map _).nodup_iff.2 hnodup)
  refine (hle.and hne).imp ?_
  rintro a b ⟨hle, hne⟩
  apply String.not_le.1
  intro hge
  exact hne (String.le_antisymm hle hge)

theorem sortedSettings_eq {rules : List (String × RuleSettings)} (hperm : rules.Perm entries)
    (hascending : entries.Pairwise fun a b => a.1 < b.1) : sortedSettings rules = entries := by
  have hnodup : (rules.map (·.1)).Nodup := by
    rw [(hperm.map _).nodup_iff, List.nodup_iff_pairwise_ne, List.pairwise_map]
    refine hascending.imp ?_
    intro a b hlt heq
    rw [heq] at hlt
    exact String.lt_irrefl b.1 hlt
  refine ((sortedSettings_perm rules).trans hperm).eq_of_pairwise ?_ (sortedSettings_ascending hnodup)
    hascending
  intro a b _ _ hab hba
  exact absurd (String.lt_trans hab hba) (String.lt_irrefl a.1)

theorem first_iff_least {entry : String × RuleSettings}
    (hascending : entries.Pairwise fun a b => a.1 < b.1) :
    (∃ earlier later, entries = earlier ++ entry :: later ∧ ∀ other ∈ earlier, ¬Rule.AtFault other) ↔
      entry ∈ entries ∧ ∀ other ∈ entries, Rule.AtFault other → entry.1 ≤ other.1 := by
  constructor
  · rintro ⟨earlier, later, rfl, hearlier⟩
    refine ⟨by simp, ?_⟩
    intro other hother hfault
    rcases List.mem_append.1 hother with hother | hother
    · exact absurd hfault (hearlier other hother)
    · rcases List.mem_cons.1 hother with rfl | hother
      · exact String.le_refl _
      · have hlater := (List.pairwise_cons.1 (List.pairwise_append.1 hascending).2.1).1 other hother
        exact String.not_lt.1 fun hlt => String.lt_irrefl _ (String.lt_trans hlater hlt)
  · rintro ⟨hmem, hleast⟩
    obtain ⟨earlier, later, rfl⟩ := List.append_of_mem hmem
    refine ⟨earlier, later, rfl, ?_⟩
    intro other hother hfault
    have hlt := (List.pairwise_append.1 hascending).2.2 other hother entry List.mem_cons_self
    exact String.not_lt.2 (hleast other (List.mem_append_left _ hother) hfault) hlt

theorem lookup_eq_some_iff_mem (hnodup : (entries.map (·.1)).Nodup) :
    entries.lookup name = some s ↔ (name, s) ∈ entries := by
  constructor
  · intro h
    obtain ⟨earlier, later, rfl, -⟩ := List.lookup_eq_some_iff.1 h
    simp
  · intro h
    obtain ⟨earlier, later, rfl⟩ := List.append_of_mem h
    refine List.lookup_eq_some_iff.2 ⟨earlier, later, rfl, ?_⟩
    intro entry hentry
    rw [List.map_append] at hnodup
    have hne := (List.nodup_append.1 hnodup).2.2 entry.1 (List.mem_map_of_mem hentry) name
      List.mem_cons_self
    simpa using Ne.symm hne

theorem lookup_sortedSettings {rules : List (String × RuleSettings)} (hnodup : (rules.map (·.1)).Nodup)
    (name : String) : (sortedSettings rules).lookup name = rules.lookup name := by
  have hperm := sortedSettings_perm rules
  apply Option.ext
  intro s
  rw [lookup_eq_some_iff_mem ((hperm.map _).nodup_iff.2 hnodup), lookup_eq_some_iff_mem hnodup,
    hperm.mem_iff]

end Ruleset

/-! ### Configurations -/

namespace Config

variable {c : Config} {standard : Standard} {rs : Ruleset} {e : RulesetError} {name : String}

/-- The standard that a configuration starts from. -/
inductive StartsFrom (c : Config) : Standard → Prop
  | usual (hnone : c.standard = none) : StartsFrom c Standard.default
  | named {standard : Standard} (hsome : c.standard = some standard.label) : StartsFrom c standard

/-- Why a configuration has no ruleset: its standard is not known, or settings of rules that are
    switched on are at fault, of which those with the least name decide. -/
inductive Refused (c : Config) : RulesetError → Prop
  | standard {name : String} (hsome : c.standard = some name)
      (hunknown : ∀ standard : Standard, standard.label ≠ name) : Refused c (.unknownStandard name)
  | rule {standard : Standard} {name : String} {s : RuleSettings} {e : RulesetError}
      (hstandard : c.StartsFrom standard) (hmem : (name, s) ∈ c.rules)
      (henabled : s.isEnabled = true) (hfaulty : Rule.Faulty s name e)
      (hleast : ∀ entry ∈ c.rules, Rule.AtFault entry → name ≤ entry.1) : Refused c e

/-- The ruleset that a configuration makes of a standard. -/
structure Assembled (c : Config) (standard : Standard) (rs : Ruleset) : Prop where
  /-- The rules of the standard that are not switched off, in its order, and then those that it lacks,
      ascending. -/
  names : ∃ added : List String, added.Pairwise (· < ·) ∧
    (∀ name, name ∈ added ↔
      (∃ s, (name, s) ∈ c.rules ∧ s.isEnabled = true) ∧ ∀ r ∈ standard.rules, r.name ≠ name) ∧
    rs.names = (standard.rules.map (·.name)).filter c.isEnabled ++ added
  /-- A rule with settings has its options and its limit from them. -/
  set : ∀ r ∈ rs.rules, ∀ s, (r.name, s) ∈ c.rules →
    s.isEnabled = true ∧ ∃ plain, Rule.Made s r.name plain ∧ Rule.Limited plain s.paths r
  /-- Every other rule is the one of the standard. -/
  unset : ∀ r ∈ rs.rules, r.name ∉ c.rules.map (·.1) → r ∈ standard.rules

theorem ofLabel?_label (standard : Standard) : Standard.ofLabel? standard.label = some standard := by
  cases standard <;> decide

theorem standardRules_of_startsFrom (h : c.StartsFrom standard) :
    c.standardRules = .ok standard.rules := by
  cases h with
  | usual hnone => rw [standardRules, hnone]
  | named hsome => simp only [standardRules, hsome, ofLabel?_label]

theorem standardRules_of_unknown (hsome : c.standard = some name)
    (hunknown : ∀ standard : Standard, standard.label ≠ name) :
    c.standardRules = .error (.unknownStandard name) := by
  have hnone : Standard.ofLabel? name = none :=
    List.find?_eq_none.2 fun standard _ => by simpa using hunknown standard
  simp only [standardRules, hsome, hnone]

theorem startsFrom_or_unknown (c : Config) :
    (∃ standard, c.StartsFrom standard) ∨
      ∃ name, c.standard = some name ∧ ∀ standard : Standard, standard.label ≠ name := by
  cases hname : c.standard with
  | none => exact .inl ⟨_, .usual hname⟩
  | some name =>
    by_cases hknown : ∃ standard : Standard, standard.label = name
    · obtain ⟨standard, rfl⟩ := hknown
      exact .inl ⟨standard, .named hname⟩
    · exact .inr ⟨name, rfl, fun standard hlabel => hknown ⟨standard, hlabel⟩⟩

theorem addAll_rules (standard : Standard) :
    ({} : Ruleset).addAll standard.rules = ⟨standard.rules⟩ := by
  cases standard <;> decide

theorem ruleset_eq (h : c.StartsFrom standard) :
    c.ruleset = Ruleset.configureAll ⟨standard.rules⟩ (Ruleset.sortedSettings c.rules) := by
  rw [ruleset, standardRules_of_startsFrom h]
  exact congrArg (Ruleset.configureAll · _) (addAll_rules standard)

theorem ruleset_of_unknown (hsome : c.standard = some name)
    (hunknown : ∀ standard : Standard, standard.label ≠ name) :
    c.ruleset = .error (.unknownStandard name) := by
  rw [ruleset, standardRules_of_unknown hsome hunknown]

theorem assembled_of_ruleset (hnodup : (c.rules.map (·.1)).Nodup) (hstandard : c.StartsFrom standard)
    (h : c.ruleset = .ok rs) : c.Assembled standard rs := by
  have hperm := Ruleset.sortedSettings_perm c.rules
  have hstart : (standard.rules.map (·.name)).Nodup := by cases standard <;> decide
  have happlied : Ruleset.Applied standard.rules (Ruleset.sortedSettings c.rules) rs := by
    rw [ruleset_eq hstandard] at h
    exact (Ruleset.Applied.init hstart).configureAll ((hperm.map _).nodup_iff.2 hnodup) h
  constructor
  · refine ⟨Ruleset.newNames standard.rules (Ruleset.sortedSettings c.rules), ?_, ?_, ?_⟩
    · exact List.pairwise_map.2 ((Ruleset.sortedSettings_ascending hnodup).filter _)
    · intro name
      simp only [Ruleset.mem_newNames_iff, hperm.mem_iff]
    · have hkept : Ruleset.keptNames standard.rules (Ruleset.sortedSettings c.rules) =
          (standard.rules.map (·.name)).filter c.isEnabled := by
        apply List.filter_congr
        intro name _
        rw [Ruleset.lookup_sortedSettings hnodup]
        rfl
      rw [happlied.names, hkept]
  · intro r hr s hs
    rcases happlied.rules r hr with ⟨s', hs', henabled, hmade⟩ | ⟨hother, -⟩
    · have heq : s' = s := by
        rw [hperm.mem_iff, ← Ruleset.lookup_eq_some_iff_mem hnodup] at hs'
        rw [← Ruleset.lookup_eq_some_iff_mem hnodup, hs'] at hs
        exact Option.some.inj hs
      rw [heq] at henabled hmade
      exact ⟨henabled, Rule.configured_ok_iff.1 hmade⟩
    · exact absurd (List.mem_map_of_mem (hperm.mem_iff.2 hs)) hother
  · intro r hr hother
    rcases happlied.rules r hr with ⟨s, hs, -⟩ | ⟨-, hstart⟩
    · exact absurd (List.mem_map_of_mem (hperm.mem_iff.1 hs)) hother
    · exact hstart

theorem ruleset_error_iff (hnodup : (c.rules.map (·.1)).Nodup) :
    c.ruleset = .error e ↔ c.Refused e := by
  have hperm := Ruleset.sortedSettings_perm c.rules
  have hascending := Ruleset.sortedSettings_ascending hnodup
  constructor
  · intro h
    rcases startsFrom_or_unknown c with ⟨standard, hstandard⟩ | ⟨name, hsome, hunknown⟩
    · rw [ruleset_eq hstandard, Ruleset.configureAll_error_iff] at h
      obtain ⟨earlier, name, s, later, hentries, henabled, hfaulty, hearlier⟩ := h
      obtain ⟨hmem, hleast⟩ :=
        (Ruleset.first_iff_least hascending).1 ⟨earlier, later, hentries, hearlier⟩
      refine .rule hstandard (hperm.mem_iff.1 hmem) henabled hfaulty ?_
      intro entry hentry
      exact hleast entry (hperm.mem_iff.2 hentry)
    · rw [ruleset_of_unknown hsome hunknown] at h
      cases h
      exact .standard hsome hunknown
  · intro h
    cases h with
    | standard hsome hunknown => exact ruleset_of_unknown hsome hunknown
    | rule hstandard hmem henabled hfaulty hleast =>
      rw [ruleset_eq hstandard, Ruleset.configureAll_error_iff]
      obtain ⟨earlier, later, hentries, hearlier⟩ := (Ruleset.first_iff_least hascending).2
        ⟨hperm.mem_iff.2 hmem, fun entry hentry => hleast entry (hperm.mem_iff.1 hentry)⟩
      exact ⟨earlier, _, _, later, hentries, henabled, hfaulty, hearlier⟩

/-- **The ruleset of a configuration.** It does not depend on the order in which the settings of rules
    are kept.  There is none exactly if the standard is not known or settings that are switched on are
    at fault, the least name deciding; else it is the standard with the settings applied. -/
theorem ruleset_assembled (c : Config) (hnodup : (c.rules.map (·.1)).Nodup) :
    (∀ rules, rules.Perm c.rules → { c with rules }.ruleset = c.ruleset) ∧
      (∀ e, c.ruleset = .error e ↔ c.Refused e) ∧
      ∀ rs, c.ruleset = .ok rs → ∃ standard, c.StartsFrom standard ∧ c.Assembled standard rs := by
  refine ⟨?_, fun e => ruleset_error_iff hnodup, ?_⟩
  · intro rules hperm
    have hsorted : Ruleset.sortedSettings rules = Ruleset.sortedSettings c.rules :=
      Ruleset.sortedSettings_eq (hperm.trans (Ruleset.sortedSettings_perm c.rules).symm)
        (Ruleset.sortedSettings_ascending hnodup)
    have hstandard : { c with rules }.standardRules = c.standardRules := rfl
    rw [ruleset, ruleset, hstandard, hsorted]
  · intro rs h
    rcases startsFrom_or_unknown c with ⟨standard, hstandard⟩ | ⟨name, hsome, hunknown⟩
    · exact ⟨standard, hstandard, assembled_of_ruleset hnodup hstandard h⟩
    · rw [ruleset_of_unknown hsome hunknown] at h
      cases h

/-- Settings in descending order that remove a rule and add two. -/
theorem ruleset_assembled_descending :
    let c : Config :=
      { standard := some "Twig"
        rules := [("VariableName", { enabled := some false }),
          ("TrailingSpace", { paths := ["*.twig"] }),
          ("Indent", { options := [("spaces", .integer 2)] })] }
    (c.rules.map (·.1)).Nodup ∧ ∃ rs, c.ruleset = .ok rs ∧
      { c with rules := c.rules.reverse }.ruleset = .ok rs ∧
      rs.names =
        ["DelimiterSpacing", "OperatorSpacing", "PunctuationSpacing", "Indent", "TrailingSpace"] ∧
      ∃ standard, c.StartsFrom standard ∧ c.Assembled standard rs := by
  intro c
  have hnodup : (c.rules.map (·.1)).Nodup := by decide
  obtain ⟨horder, -, hassembled⟩ := ruleset_assembled c hnodup
  have hsorted : Ruleset.sortedSettings c.rules = c.rules.reverse :=
    Ruleset.sortedSettings_eq c.rules.reverse_perm.symm (by decide)
  have hnames :
      (Ruleset.configureAll ⟨Standard.language.rules⟩ c.rules.reverse).toOption.map (·.names) =
        some ["DelimiterSpacing", "OperatorSpacing", "PunctuationSpacing", "Indent",
          "TrailingSpace"] := by
    decide +kernel
  have hstandard : c.StartsFrom .language := .named rfl
  have hruleset := ruleset_eq hstandard
  rw [hsorted] at hruleset
  cases hrs : Ruleset.configureAll ⟨Standard.language.rules⟩ c.rules.reverse with
  | error e =>
    rw [hrs] at hnames
    cases hnames
  | ok rs =>
    rw [hrs] at hnames hruleset
    exact ⟨hnodup, rs, hruleset, (horder _ c.rules.reverse_perm).trans hruleset, Option.some.inj hnames,
      hassembled rs hruleset⟩

end Config

end TwigStyle
