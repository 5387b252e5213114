import TwigStyle.Proofs.Assembly

/-!
# Rulesets as ordered maps

A ruleset is changed by three calls: a rule is added, a row of rules is added, a name is removed.
Rules run in order and the first one to edit a token wins, so it matters where a rule stands.

Two readings are given of what a row of calls leads to.  One goes by the last call: in a ruleset
without repeated names a rule is put in the place of its namesake, or else at the end, and a removal
closes its gap (`rules_add_namesake`, `rules_add_new`, `rules_remove`).  The other goes by the whole
history: the rule of a name is the last one that was added under it since it was removed (`held`),
and names stand in the order in which they came in (`entered`).  `Recorded` ties a ruleset to its
history; an edit keeps it (`Recorded.edit`), so it holds after every row of calls.
-/

namespace TwigStyle

namespace Rule

/-- A rule limited to paths, and that one to paths again, innermost limit first. -/
def limited (r : Rule) (limits : List (List Glob)) : Rule := limits.foldl onPaths r

theorem isFixable_limited (r : Rule) (limits : List (List Glob)) :
    (r.limited limits).isFixable = r.isFixable := by
  induction limits generalizing r with
  | nil => rfl
  | cons globs limits ih => exact ih (r.onPaths globs)

end Rule

namespace Ruleset

/-- A call that changes a ruleset. -/
inductive Call where
  | add (rule : Rule)
  | addAll (rules : List Rule)
  | remove (name : String)

/-- The ruleset after a call. -/
def call (rs : Ruleset) : Call → Ruleset
  | .add rule => rs.add rule
  | .addAll rules => rs.addAll rules
  | .remove name => rs.remove name

/-- The ruleset after calls, one after the other. -/
def calls (rs : Ruleset) (cs : List Call) : Ruleset := cs.foldl call rs

/-- What a call does to one name: a rule is put in, or the name is dropped. -/
inductive Edit where
  | put (rule : Rule)
  | drop (name : String)

/-- The ruleset after an edit. -/
def edit (rs : Ruleset) : Edit → Ruleset
  | .put rule => rs.add rule
  | .drop name => rs.remove name

/-- The edits of a call, in order. -/
def Call.edits : Call → List Edit
  | .add rule => [.put rule]
  | .addAll rules => rules.map .put
  | .remove name => [.drop name]

/-- The edits of calls, the latest one first. -/
def history (cs : List Call) : List Edit := (cs.flatMap Call.edits).reverse

/-- The rule that a history leaves under a name: the one added last, if the name was not dropped
    since. -/
def held (name : String) : List Edit → Option Rule
  | [] => none
  | .put rule :: earlier => if rule.name = name then some rule else held name earlier
  | .drop n :: earlier => if n = name then none else held name earlier

/-- How many edits had been made when a name came in for the last time. -/
def entered (name : String) : List Edit → Nat
  | [] => 0
  | .put rule :: earlier =>
    if rule.name = name ∧ held name earlier = none then earlier.length else entered name earlier
  | .drop _ :: earlier => entered name earlier

/-! ### One edit -/

variable {rs : Ruleset} {before after : List Rule} {old rule : Rule} {name : String}

theorem name_ne_of_nodup (hnodup : rs.names.Nodup) (h : rs.rules = before ++ old :: after) :
    (∀ r ∈ before, r.name ≠ old.name) ∧ ∀ r ∈ after, r.name ≠ old.name := by
  rw [names, h, List.map_append, List.map_cons, List.nodup_append, List.nodup_cons] at hnodup
  obtain ⟨-, ⟨hafter, -⟩, hbefore⟩ := hnodup
  constructor
  · intro r hr
    exact hbefore r.name (List.mem_map_of_mem hr) old.name List.mem_cons_self
  · intro r hr heq
    exact hafter (heq ▸ List.mem_map_of_mem hr)

theorem insert_append (hbefore : ∀ r ∈ before, r.name ≠ rule.name) (rules : List Rule) :
    insert rule (before ++ rules) = before ++ insert rule rules := by
  induction before with
  | nil => rfl
  | cons r before ih =>
    rw [List.cons_append, insert, if_neg (hbefore r List.mem_cons_self),
      ih fun r' hr' => hbefore r' (List.mem_cons_of_mem r hr')]
    rfl

/-- A rule takes the place of its namesake, and every other rule stays where it is. -/
theorem rules_add_namesake (hnodup : rs.names.Nodup) (h : rs.rules = before ++ old :: after)
    (hname : rule.name = old.name) : (rs.add rule).rules = before ++ rule :: after := by
  have hbefore : ∀ r ∈ before, r.name ≠ rule.name := by
    rw [hname]
    exact (name_ne_of_nodup hnodup h).1
  change insert rule rs.rules = _
  rw [h, insert_append hbefore, insert, if_pos hname.symm]

/-- A rule with a new name goes to the end. -/
theorem rules_add_new (hname : rule.name ∉ rs.names) :
    (rs.add rule).rules = rs.rules ++ [rule] := by
  have hother : ∀ r ∈ rs.rules, r.name ≠ rule.name := by
    intro r hr heq
    exact hname (heq ▸ List.mem_map_of_mem hr)
  have hinsert := insert_append hother []
  rwa [List.append_nil] at hinsert

/-- A removal takes out the rule of the name, and the others close up. -/
theorem rules_remove (hnodup : rs.names.Nodup) (name : String) :
    (rs.remove name).rules = rs.rules.filter (·.name ≠ name) := by
  obtain ⟨rules⟩ := rs
  change rules.eraseP (·.name == name) = _
  induction rules with
  | nil => rfl
  | cons r rules ih =>
    obtain ⟨hr, hnodup⟩ := List.nodup_cons.1 hnodup
    by_cases hname : r.name = name
    · have hothers : ∀ r' ∈ rules, r'.name ≠ name := by
        intro r' hr' heq
        exact hr (List.mem_map.2 ⟨r', hr', heq.trans hname.symm⟩)
      rw [List.eraseP_cons_of_pos (by simpa using hname),
        List.filter_cons_of_neg (by simpa using hname)]
      exact (List.filter_eq_self.2 fun r' hr' => by simpa using hothers r' hr').symm
    · rw [List.eraseP_cons_of_neg (by simpa using hname), ih hnodup,
        List.filter_cons_of_pos (by simpa using hname)]

theorem names_add_known (h : rule.name ∈ rs.names) : (rs.add rule).names = rs.names := by
  have hnames : (rs.add rule).names = rs.names ++
      if rs.names.contains rule.name then [] else [rule.name] := names_insert rule rs.rules
  rwa [if_pos (List.contains_iff_mem.2 h), List.append_nil] at hnames

theorem names_add_new (h : rule.name ∉ rs.names) :
    (rs.add rule).names = rs.names ++ [rule.name] := by
  rw [names, rules_add_new h, List.map_append]
  rfl

theorem nodup_remove (hnodup : rs.names.Nodup) (name : String) : (rs.remove name).names.Nodup := by
  rw [names_remove]
  exact hnodup.erase name

theorem find?_add (rs : Ruleset) (rule : Rule) (name : String) :
    (rs.add rule).find? name = if rule.name = name then some rule else rs.find? name := by
  obtain ⟨rules⟩ := rs
  change (insert rule rules).find? (·.name == name) = if rule.name = name then _ else rules.find? _
  induction rules with
  | nil => by_cases h : rule.name = name <;> simp [insert, h]
  | cons r rules ih =>
    unfold insert
    split
    next hr => by_cases h : rule.name = name <;> simp [hr, h]
    next hr =>
      rw [List.find?_cons, List.find?_cons, ih]
      by_cases h : r.name = name
      · have hne : rule.name ≠ name := fun heq => hr (h.trans heq.symm)
        simp [h, hne]
      · have hbeq : (r.name == name) = false := beq_false_of_ne h
        rw [hbeq]

theorem find?_remove (hnodup : rs.names.Nodup) (removed name : String) :
    (rs.remove removed).find? name = if removed = name then none else rs.find? name := by
  unfold find?
  rw [rules_remove hnodup, List.find?_filter]
  split
  next heq =>
    rw [List.find?_eq_none]
    simp [heq]
  next hne =>
    congr 1
    funext r
    by_cases hr : r.name = name
    · simp [hr, Ne.symm hne]
    · simp [hr]

/-! ### The history -/

theorem find?_eq_none_iff : rs.find? name = none ↔ name ∉ rs.names := by
  simp [find?, names]

/-- A ruleset and the edits, the latest one first, that have led to it. -/
structure Recorded (rs : Ruleset) (edits : List Edit) : Prop where
  nodup : rs.names.Nodup
  find?_eq : ∀ name, rs.find? name = held name edits
  /-- Names stand in the order in which they came in. -/
  sorted : rs.names.Pairwise fun a b => entered a edits < entered b edits
  entered_lt : ∀ name ∈ rs.names, entered name edits < edits.length

namespace Recorded

variable {edits : List Edit}

theorem empty : Recorded {} [] where
  nodup := List.nodup_nil
  find?_eq _ := rfl
  sorted := List.Pairwise.nil
  entered_lt _ h := absurd h List.not_mem_nil

theorem entered_put (h : Recorded rs edits) (hname : name ∈ rs.names) (rule : Rule) :
    entered name (.put rule :: edits) = entered name edits := by
  have hheld : held name edits ≠ none := by
    rw [← h.find?_eq, Ne, find?_eq_none_iff]
    exact fun hout => hout hname
  rw [entered, if_neg fun hboth => hheld hboth.2]

theorem entered_new (h : Recorded rs edits) (hnew : rule.name ∉ rs.names) :
    entered rule.name (.put rule :: edits) = edits.length := by
  have hheld : held rule.name edits = none := by
    rw [← h.find?_eq]
    exact find?_eq_none_iff.2 hnew
  rw [entered, if_pos ⟨rfl, hheld⟩]

theorem sorted_put (h : Recorded rs edits) (rule : Rule) : rs.names.Pairwise fun a b =>
    entered a (.put rule :: edits) < entered b (.put rule :: edits) := by
  refine h.sorted.imp_of_mem fun {a b} ha hb hlt => ?_
  rwa [h.entered_put ha, h.entered_put hb]

theorem put (h : Recorded rs edits) (rule : Rule) :
    Recorded (rs.add rule) (.put rule :: edits) := by
  have hfind : ∀ name, (rs.add rule).find? name = held name (.put rule :: edits) := by
    intro name
    rw [find?_add, h.find?_eq, held]
  have hearlier : ∀ name ∈ rs.names, entered name (.put rule :: edits) < edits.length := by
    intro name hname
    rw [h.entered_put hname]
    exact h.entered_lt name hname
  by_cases hknown : rule.name ∈ rs.names
  · have hnames := names_add_known hknown
    refine ⟨hnames ▸ h.nodup, hfind, hnames ▸ h.sorted_put rule, ?_⟩
    rw [hnames]
    exact fun name hname => Nat.lt_succ_of_lt (hearlier name hname)
  · -- a new name comes in with this edit, behind all the others
    have hnames := names_add_new hknown
    refine ⟨?_, hfind, ?_, ?_⟩
    · rw [hnames, List.nodup_append]
      refine ⟨h.nodup, List.pairwise_singleton _ _, ?_⟩
      intro a ha b hb heq
      rw [List.mem_singleton.1 hb] at heq
      exact hknown (heq ▸ ha)
    · rw [hnames, List.pairwise_append]
      refine ⟨h.sorted_put rule, List.pairwise_singleton _ _, ?_⟩
      intro a ha b hb
      rw [List.mem_singleton.1 hb, h.entered_new hknown]
      exact hearlier a ha
    · rw [hnames]
      intro name hname
      rcases List.mem_append.1 hname with hname | hname
      · exact Nat.lt_succ_of_lt (hearlier name hname)
      · rw [List.mem_singleton.1 hname, h.entered_new hknown]
        exact Nat.lt_succ_self _

theorem drop (h : Recorded rs edits) (name : String) :
    Recorded (rs.remove name) (.drop name :: edits) where
  nodup := nodup_remove h.nodup name
  find?_eq n := by rw [find?_remove h.nodup, h.find?_eq, held]
  sorted := by
    rw [names_remove]
    exact h.sorted.sublist List.erase_sublist
  entered_lt n hn := by
    rw [names_remove] at hn
    exact Nat.lt_succ_of_lt (h.entered_lt n (List.mem_of_mem_erase hn))

theorem edit (h : Recorded rs edits) (e : Edit) : Recorded (rs.edit e) (e :: edits) := by
  cases e with
  | put rule => exact h.put rule
  | drop name => exact h.drop name

theorem foldl_edit (h : Recorded rs edits) (more : List Edit) :
    Recorded (more.foldl Ruleset.edit rs) (more.reverse ++ edits) := by
  induction more generalizing rs edits with
  | nil => exact h
  | cons e more ih =>
    rw [List.foldl_cons, List.reverse_cons, List.append_assoc, List.singleton_append]
    exact ih (h.edit e)

end Recorded

theorem call_eq (rs : Ruleset) (c : Call) : rs.call c = c.edits.foldl edit rs := by
  cases c with
  | add rule => rfl
  | addAll rules =>
    change rules.foldl add rs = (rules.map Edit.put).foldl edit rs
    rw [List.foldl_map]
    rfl
  | remove name => rfl

theorem calls_eq (rs : Ruleset) (cs : List Call) :
    rs.calls cs = (cs.flatMap Call.edits).foldl edit rs := by
  induction cs generalizing rs with
  | nil => rfl
  | cons c cs ih =>
    rw [List.flatMap_cons, List.foldl_append, ← call_eq]
    exact ih (rs.call c)

theorem recorded_calls (cs : List Call) : Recorded (({} : Ruleset).calls cs) (history cs) := by
  have h := Recorded.empty.foldl_edit (cs.flatMap Call.edits)
  rwa [← calls_eq, List.append_nil] at h

/-! ### What does not come in -/

/-- The names of the rules that a call adds. -/
def Call.added : Call → List String
  | .add rule => [rule.name]
  | .addAll rules => rules.map (·.name)
  | .remove _ => []

theorem not_mem_names_add (h : name ∉ rs.names) (hrule : rule.name ≠ name) :
    name ∉ (rs.add rule).names := by
  rw [← find?_eq_none_iff, find?_add, if_neg hrule]
  exact find?_eq_none_iff.2 h

theorem not_mem_names_addAll (h : name ∉ rs.names) {rules : List Rule}
    (hrules : name ∉ rules.map (·.name)) : name ∉ (rs.addAll rules).names := by
  induction rules generalizing rs with
  | nil => exact h
  | cons r rules ih =>
    have hr : r.name ≠ name := fun heq => hrules (heq ▸ List.mem_cons_self)
    exact ih (not_mem_names_add h hr) fun hmem => hrules (List.mem_cons_of_mem _ hmem)

theorem not_mem_names_remove (h : name ∉ rs.names) (removed : String) :
    name ∉ (rs.remove removed).names := by
  rw [names_remove]
  exact fun hmem => h (List.mem_of_mem_erase hmem)

theorem not_mem_names_calls (h : name ∉ rs.names) {cs : List Call}
    (hadded : ∀ c ∈ cs, name ∉ c.added) : name ∉ (rs.calls cs).names := by
  induction cs generalizing rs with
  | nil => exact h
  | cons c cs ih =>
    have hc : name ∉ (rs.call c).names := by
      have hnot := hadded c List.mem_cons_self
      cases c with
      | add rule => exact not_mem_names_add h fun heq => hnot (List.mem_singleton.2 heq.symm)
      | addAll rules => exact not_mem_names_addAll h hnot
      | remove removed => exact not_mem_names_remove h removed
    exact ih hc fun c' hc' => hadded c' (List.mem_cons_of_mem c hc')

theorem not_mem_names_removed (hnodup : rs.names.Nodup) (name : String) :
    name ∉ (rs.remove name).names := by
  rw [← find?_eq_none_iff, find?_remove hnodup, if_pos rfl]

/-! ### The map -/

/-- What holds of a ruleset that some calls have led to. -/
structure IsOrderedMap (rs : Ruleset) (cs : List Call) : Prop where
  distinct : rs.names.Nodup
  /-- The rule of a name is the last one added under it since it was removed. -/
  find?_eq : ∀ name, rs.find? name = held name (history cs)
  /-- Names stand in the order in which they came in. -/
  sorted : rs.names.Pairwise fun a b => entered a (history cs) < entered b (history cs)
  replaces : ∀ (before : List Rule) (old : Rule) (after : List Rule) (rule : Rule),
    rs.rules = before ++ old :: after → rule.name = old.name →
      (rs.add rule).rules = before ++ rule :: after
  appends : ∀ rule, rule.name ∉ rs.names → (rs.add rule).rules = rs.rules ++ [rule]
  removes : ∀ name, (rs.remove name).rules = rs.rules.filter (·.name ≠ name)
  /-- A name that was removed goes to the end when it is added again, also later on. -/
  returns : ∀ (rule : Rule) (later : List Call), (∀ c ∈ later, rule.name ∉ c.added) →
    (((rs.remove rule.name).calls later).add rule).rules =
      ((rs.remove rule.name).calls later).rules ++ [rule]
  /-- The rules that take part in fixing stand in the order of all rules, and limits to paths, one
      around the other, make no difference to which ones these are. -/
  fixable_sublist : rs.fixable.Sublist rs.rules
  mem_fixable : ∀ (rule : Rule) (limits : List (List Glob)), rule.limited limits ∈ rs.fixable ↔
    rule.limited limits ∈ rs.rules ∧ rule.isFixable = true

/-- Whatever calls are made, an empty ruleset becomes an ordered map. -/
theorem isOrderedMap_calls (cs : List Call) : IsOrderedMap (({} : Ruleset).calls cs) cs := by
  have h := recorded_calls cs
  generalize ({} : Ruleset).calls cs = rs at h
  refine ⟨h.nodup, h.find?_eq, h.sorted, fun _ _ _ _ => rules_add_namesake h.nodup,
    fun _ => rules_add_new, rules_remove h.nodup, ?_, List.filter_sublist, ?_⟩
  · intro rule later hadded
    exact rules_add_new (not_mem_names_calls (not_mem_names_removed h.nodup rule.name) hadded)
  · intro rule limits
    rw [fixable, List.mem_filter, Rule.isFixable_limited]

/-- A rule is replaced by one that is limited to paths, and one that was removed comes back behind a
    newcomer. -/
theorem isOrderedMap_calls_limited :
    (({} : Ruleset).calls [.add .blankEof, .addAll [.trailingSpace, .variableName .snake],
        .add (Rule.limited .blankEof [[], []])]).rules =
      [Rule.limited .blankEof [[], []], .trailingSpace, .variableName .snake] ∧
    (∀ c ∈ [Call.add (.indent 4)], Rule.trailingSpace.name ∉ c.added) ∧
    (({} : Ruleset).calls [.add .blankEof, .addAll [.trailingSpace, .variableName .snake],
        .remove "TrailingSpace", .add (.indent 4), .add .trailingSpace]).rules =
      [.blankEof, .variableName .snake, .indent 4, .trailingSpace] := by
  have hadded : ∀ c ∈ [Call.add (.indent 4)], Rule.trailingSpace.name ∉ c.added := by
    intro c hc
    rw [List.mem_singleton.1 hc]
    decide
  have hmap := isOrderedMap_calls [.add .blankEof, .addAll [.trailingSpace, .variableName .snake]]
  exact ⟨hmap.replaces [] .blankEof _ (Rule.limited .blankEof [[], []]) rfl rfl, hadded,
    hmap.returns .trailingSpace _ hadded⟩

end Ruleset

end TwigStyle
