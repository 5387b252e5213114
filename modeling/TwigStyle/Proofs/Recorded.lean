import TwigStyle.Proofs.Reporting

/-!
# What a report holds

A report is seen through three things: its paths, the violations of each path, and the totals.
Recording violations leaves the paths alone, appends to each path its own violations, and adds their
number to the totals.  `Report.Extends` says this of a whole row of violations, so what a report holds
in the end is known without going through it again.

The paths of a new report are those it was made for, in the order of their components.  Which of them
came first does not show (`empty_perm`), as long as no two of them have the same components.
-/

namespace TwigStyle

/-! ### Totals -/

namespace Totals

/-- Two totals taken together. -/
def plus (t u : Totals) : Totals :=
  ⟨t.notices + u.notices, t.warnings + u.warnings, t.errors + u.errors, t.fatals + u.fatals⟩

/-- Totals taken together. -/
def sum (ts : List Totals) : Totals := ts.foldr plus {}

/-- The totals of some violations. -/
def ofViolations (vs : List Violation) : Totals := vs.foldl (fun t v => t.count v.severity) {}

theorem zero_plus (t : Totals) : plus {} t = t := by
  simp [plus]

theorem plus_assoc (t u w : Totals) : (t.plus u).plus w = t.plus (u.plus w) := by
  simp [plus, Nat.add_assoc]

theorem plus_left_comm (t u w : Totals) : t.plus (u.plus w) = u.plus (t.plus w) := by
  simp [plus, Nat.add_left_comm]

theorem plus_count (t u : Totals) (s : Severity) : t.plus (u.count s) = (t.plus u).count s := by
  cases s <;> rfl

theorem foldl_count (t : Totals) (vs : List Violation) :
    vs.foldl (fun t v => t.count v.severity) t = t.plus (ofViolations vs) := by
  have hfold : ∀ (vs : List Violation) (u : Totals),
      vs.foldl (fun t v => t.count v.severity) (t.plus u) =
        t.plus (vs.foldl (fun t v => t.count v.severity) u) := by
    intro vs
    induction vs with
    | nil =>
      intro u
      rfl
    | cons v vs ih =>
      intro u
      rw [List.foldl_cons, List.foldl_cons, ← plus_count, ih]
  exact hfold vs {}

theorem ofViolations_append (us vs : List Violation) :
    ofViolations (us ++ vs) = (ofViolations us).plus (ofViolations vs) := by
  rw [ofViolations, List.foldl_append, foldl_count]
  rfl

theorem sum_cons (t : Totals) (ts : List Totals) : sum (t :: ts) = t.plus (sum ts) := rfl

theorem sum_perm {ts us : List Totals} (h : ts.Perm us) : sum ts = sum us := by
  induction h with
  | nil => rfl
  | cons t _ ih => exact congrArg t.plus ih
  | swap t u ts => exact plus_left_comm u t (sum ts)
  | trans _ _ ih₁ ih₂ => exact ih₁.trans ih₂

end Totals

/-! ### The order of paths -/

namespace Path

variable {p q : Path}

/-- What is compared through a function is compared in a transitive way. -/
theorem transCmp_through {α β : Type} {cmp : β → β → Ordering} (h : Std.TransCmp cmp) (f : α → β) :
    Std.TransCmp fun a b => cmp (f a) (f b) where
  eq_swap := h.eq_swap
  isLE_trans := h.isLE_trans

theorem transCmp_compareText : Std.TransCmp compareText := by
  have htext : compareText =
      List.compareLex (fun a b : Char => Ord.compare a.toNat b.toNat) := by
    funext s t
    induction s generalizing t with
    | nil => cases t <;> rfl
    | cons a s ih =>
      cases t with
      | nil => rfl
      | cons b t => rw [compareText, List.compareLex_cons_cons, ih]
  have hnat : Std.TransCmp fun m n : Nat => Ord.compare m n := inferInstance
  have hchar := transCmp_through hnat Char.toNat
  rw [htext]
  infer_instance

/-- The text of a name; no other component has one. -/
def Component.text : Component → List Char
  | .name t => t
  | _ => []

theorem transCmp_component : Std.TransCmp Component.compare := by
  have hlex : Component.compare = compareLex (fun a b => Ord.compare a.rank b.rank)
      (fun a b => compareText a.text b.text) := by
    funext a b
    cases a <;> cases b <;> rfl
  have hnat : Std.TransCmp fun m n : Nat => Ord.compare m n := inferInstance
  have hrank := transCmp_through hnat Component.rank
  have hname := transCmp_through transCmp_compareText Component.text
  rw [hlex]
  infer_instance

/-- No two of the paths have the same components. -/
def Distinct (paths : List Path) : Prop := paths.Pairwise fun p q => p.same q = false

theorem not_same_symm (h : p.same q = false) : q.same p = false := by
  rw [Bool.eq_false_iff] at h ⊢
  exact fun hsame => h (same_symm hsame)

theorem Distinct.of_mem {paths : List Path} (h : Distinct paths) (hp : p ∈ paths) (hq : q ∈ paths)
    (hne : p ≠ q) : p.same q = false := by
  induction h with
  | nil => cases hp
  | cons hhead _ ih =>
    rcases List.mem_cons.1 hp with rfl | hp'
    · rcases List.mem_cons.1 hq with rfl | hq'
      · exact absurd rfl hne
      · exact hhead q hq'
    · rcases List.mem_cons.1 hq with rfl | hq'
      · exact not_same_symm (hhead p hp')
      · exact ih hp' hq'

instance : Std.TransCmp Path.compare := by
  have hlist : compareComponents = List.compareLex Component.compare := by
    funext as bs
    induction as generalizing bs with
    | nil => cases bs <;> rfl
    | cons a as ih =>
      cases bs with
      | nil => rfl
      | cons b bs => rw [compareComponents, List.compareLex_cons_cons, ih]
  have hcomponent := transCmp_component
  have hcomponents : Std.TransCmp compareComponents := by
    rw [hlist]
    infer_instance
  exact transCmp_through hcomponents components

end Path

/-! ### Recording violations -/

namespace Report

variable {r r' r₁ : Report} {p file f g : Path} {v : Violation} {us vs : List Violation}
  {files : List Path} {e : Path × List Violation} {entries : List (Path × List Violation)}

/-- The report `r'` is `r` with some violations recorded. -/
structure Extends (r r' : Report) (vs : List Violation) : Prop where
  paths : r'.paths = r.paths
  violations : ∀ p, r'.violationsOf? p =
    (r.violationsOf? p).map fun before => before ++ vs.filter fun v => v.file.same p
  totals : r'.totals = r.totals.plus (.ofViolations vs)

namespace Extends

theorem refl (r : Report) : r.Extends r [] where
  paths := rfl
  violations p := by simp
  totals := rfl

theorem trans (h : r.Extends r₁ us) (h' : r₁.Extends r' vs) : r.Extends r' (us ++ vs) where
  paths := h'.paths.trans h.paths
  violations p := by
    rw [h'.violations, h.violations, Option.map_map]
    simp [Function.comp_def]
  totals := by rw [h'.totals, h.totals, Totals.plus_assoc, ← Totals.ofViolations_append]

theorem congr {fixed : List Path} (h : r.Extends r' vs) : r.Extends { r' with fixed } vs :=
  ⟨h.paths, h.violations, h.totals⟩

end Extends

theorem paths_appendTo (v : Violation) (entries : List (Path × List Violation)) :
    (appendTo v entries).map (·.1) = entries.map (·.1) := by
  induction entries with
  | nil => rfl
  | cons entry entries ih =>
    unfold appendTo
    split
    · rfl
    · rw [List.map_cons, List.map_cons, ih]

theorem find?_appendTo (v : Violation) (p : Path) (entries : List (Path × List Violation)) :
    ((appendTo v entries).find? fun e => e.1.same p).map (·.2) =
      ((entries.find? fun e => e.1.same p).map (·.2)).map fun before =>
        if v.file.same p then before ++ [v] else before := by
  induction entries with
  | nil => rfl
  | cons entry entries ih =>
    obtain ⟨f, before⟩ := entry
    by_cases hfile : f.same v.file = true
    · have hsame := Path.same_congr hfile p
      cases hp : v.file.same p with
      | true => simp [appendTo, hfile, hsame, hp]
      | false => simp [appendTo, hfile, hsame, hp, Function.comp_def]
    · cases hp : f.same p with
      | true =>
        have hother : v.file.same p = false := by
          rw [Bool.eq_false_iff]
          intro hv
          exact hfile (Path.same_trans hp (Path.same_symm hv))
        simp [appendTo, hfile, hp, hother]
      | false => simpa [appendTo, hfile, hp] using ih

theorem extends_of_add (h : r.add v = .ok r') : r.Extends r' [v] ∧ r'.fixed = r.fixed := by
  unfold add at h
  split at h
  · cases h
    refine ⟨⟨paths_appendTo v r.files, ?_, Totals.foldl_count r.totals [v]⟩, rfl⟩
    intro p
    refine (find?_appendTo v p r.files).trans ?_
    cases hv : v.file.same p <;> simp [violationsOf?, hv, Function.comp_def]
  · cases h

theorem extends_of_addAll (h : r.addAll vs = .ok r') : r.Extends r' vs ∧ r'.fixed = r.fixed := by
  induction vs generalizing r with
  | nil =>
    cases h
    exact ⟨.refl _, rfl⟩
  | cons v vs ih =>
    unfold addAll at h
    split at h
    · rename_i r₁ hadd
      obtain ⟨hfirst, hfixed⟩ := extends_of_add hadd
      obtain ⟨hrest, hfixed'⟩ := ih h
      exact ⟨hfirst.trans hrest, hfixed'.trans hfixed⟩
    · cases h

theorem covers_iff : r.covers p = true ↔ (r.violationsOf? p).isSome = true := by
  simp [covers, violationsOf?]

/-! ### New reports -/

/-- The paths are in order, so that no two of them have the same components. -/
def Sorted (r : Report) : Prop := r.paths.Pairwise fun p q => p.compare q = .lt

theorem mem_insertFile (h : e ∈ insertFile file entries) :
    e ∈ entries ∨ e.1 = file ∧ (e.2 = [] ∨ ∃ old ∈ entries, e.2 = old.2) := by
  induction entries with
  | nil =>
    rw [List.mem_singleton.1 h]
    exact .inr ⟨rfl, .inl rfl⟩
  | cons entry entries ih =>
    unfold insertFile at h
    split at h
    · rcases List.mem_cons.1 h with rfl | h
      · exact .inr ⟨rfl, .inl rfl⟩
      · exact .inl h
    · rcases List.mem_cons.1 h with rfl | h
      · exact .inr ⟨rfl, .inr ⟨_, List.mem_cons_self, rfl⟩⟩
      · exact .inl (List.mem_cons_of_mem _ h)
    · rcases List.mem_cons.1 h with rfl | h
      · exact .inl List.mem_cons_self
      · rcases ih h with h | ⟨hfile, h | ⟨old, hold, h⟩⟩
        · exact .inl (List.mem_cons_of_mem _ h)
        · exact .inr ⟨hfile, .inl h⟩
        · exact .inr ⟨hfile, .inr ⟨old, List.mem_cons_of_mem _ hold, h⟩⟩

theorem empty_induction {P : List (Path × List Violation) → Prop} (files : List Path) (hnil : P [])
    (hinsert : ∀ file ∈ files, ∀ entries, P entries → P (insertFile file entries)) :
    P (empty files).files := by
  have hfold : ∀ (rest : List Path) (entries : List (Path × List Violation)), rest ⊆ files →
      P entries → P (rest.foldl (fun fs f => insertFile f fs) entries) := by
    intro rest
    induction rest with
    | nil => exact fun _ _ h => h
    | cons f rest ih =>
      intro entries hrest h
      obtain ⟨hf, hrest⟩ := List.cons_subset.1 hrest
      exact ih _ hrest (hinsert f hf entries h)
  exact hfold files [] (fun _ h => h) hnil

theorem sorted_empty (files : List Path) : (empty files).Sorted := by
  refine List.pairwise_map.2 (empty_induction files .nil ?_)
  intro file _ entries h
  induction entries with
  | nil => exact List.pairwise_singleton _ _
  | cons entry entries ih =>
    obtain ⟨hhead, htail⟩ := List.pairwise_cons.1 h
    unfold insertFile
    split
    · rename_i hlt
      refine List.pairwise_cons.2 ⟨?_, h⟩
      intro e he
      rcases List.mem_cons.1 he with rfl | he
      · exact hlt
      · exact Std.TransCmp.lt_trans hlt (hhead e he)
    · rename_i heq
      refine List.pairwise_cons.2 ⟨?_, htail⟩
      intro e he
      exact Std.TransCmp.lt_of_eq_of_lt heq (hhead e he)
    · rename_i hgt
      refine List.pairwise_cons.2 ⟨?_, ih htail⟩
      intro e he
      rcases mem_insertFile he with he | ⟨hfile, -⟩
      · exact hhead e he
      · rw [hfile]
        exact Std.OrientedCmp.gt_iff_lt.1 hgt

theorem eq_nil_of_mem_empty (h : e ∈ (empty files).files) : e.2 = [] := by
  have hnil : ∀ e ∈ (empty files).files, e.2 = [] := by
    refine empty_induction (P := fun entries => ∀ e ∈ entries, e.2 = []) files nofun ?_
    intro file _ entries hentries e he
    rcases mem_insertFile he with he | ⟨-, heq | ⟨old, hold, heq⟩⟩
    · exact hentries e he
    · exact heq
    · rw [heq, hentries old hold]
  exact hnil e h

theorem violationsOf?_empty_of_covers (h : (empty files).covers p = true) :
    (empty files).violationsOf? p = some [] := by
  obtain ⟨vs, hvs⟩ := Option.isSome_iff_exists.1 (covers_iff.1 h)
  obtain ⟨e, he, rfl⟩ := Option.map_eq_some_iff.1 hvs
  rw [hvs, eq_nil_of_mem_empty (List.mem_of_find?_eq_some he)]

theorem violationsOf?_empty (h : p ∈ files) : (empty files).violationsOf? p = some [] :=
  violationsOf?_empty_of_covers (covers_empty h)

theorem mem_paths_empty (h : p ∈ (empty files).paths) : p ∈ files := by
  have hmem : ∀ e ∈ (empty files).files, e.1 ∈ files := by
    refine empty_induction (P := fun entries => ∀ e ∈ entries, e.1 ∈ files) files nofun ?_
    intro file hfile entries hentries e he
    rcases mem_insertFile he with he | ⟨heq, -⟩
    · exact hentries e he
    · rw [heq]
      exact hfile
  obtain ⟨e, he, rfl⟩ := List.mem_map.1 h
  exact hmem e he

theorem insertFile_comm_of_lt (h : f.compare g = .lt) (entries : List (Path × List Violation)) :
    insertFile f (insertFile g entries) = insertFile g (insertFile f entries) := by
  have hgf : g.compare f = .gt := Std.OrientedCmp.gt_iff_lt.2 h
  induction entries with
  | nil => simp [insertFile, h, hgf]
  | cons entry entries ih =>
    obtain ⟨k, vs⟩ := entry
    cases hf : f.compare k with
    | lt =>
      -- Whatever becomes of the first entry, `f` comes before it.
      cases hg : g.compare k <;> simp [insertFile, hf, hg, h, hgf]
    | eq =>
      have hg : g.compare k = .gt :=
        Std.OrientedCmp.gt_iff_lt.2
          (Std.TransCmp.lt_of_eq_of_lt (Std.OrientedCmp.eq_symm hf) h)
      simp [insertFile, hf, hg, hgf]
    | gt =>
      have hg : g.compare k = .gt :=
        Std.OrientedCmp.gt_iff_lt.2 (Std.TransCmp.lt_trans (Std.OrientedCmp.gt_iff_lt.1 hf) h)
      simp [insertFile, hf, hg, ih]

theorem insertFile_comm (h : f.same g = false) (entries : List (Path × List Violation)) :
    insertFile f (insertFile g entries) = insertFile g (insertFile f entries) := by
  cases hcompare : f.compare g with
  | lt => exact insertFile_comm_of_lt hcompare entries
  | eq =>
    rw [Path.compare_eq_iff.1 hcompare] at h
    cases h
  | gt => exact (insertFile_comm_of_lt (Std.OrientedCmp.gt_iff_lt.1 hcompare) entries).symm

/-- A new report does not tell in which order its files came. -/
theorem empty_perm {files' : List Path} (hperm : files.Perm files') (h : Path.Distinct files) :
    empty files = empty files' := by
  have hfiles : (empty files).files = (empty files').files := by
    refine hperm.foldl_eq' ?_ []
    intro p hp q hq entries
    by_cases heq : p = q
    · rw [heq]
    · exact insertFile_comm (h.of_mem hq hp (Ne.symm heq)) entries
  exact congrArg (Report.mk · [] {}) hfiles

theorem entries_eq_map (h : entries.Pairwise fun a b => a.1.compare b.1 = .lt) :
    entries = entries.map fun e =>
      (e.1, ((entries.find? fun e' => e'.1.same e.1).map (·.2)).getD []) := by
  induction entries with
  | nil => rfl
  | cons entry entries ih =>
    obtain ⟨hhead, htail⟩ := List.pairwise_cons.1 h
    rw [List.map_cons]
    congr 1
    · simp [Path.same_refl]
    · -- The search for a later path passes over the first entry.
      refine (ih htail).trans (List.map_congr_left fun e he => ?_)
      have hother : entry.1.same e.1 = false := by
        rw [Bool.eq_false_iff]
        intro hsame
        have hlt := hhead e he
        rw [Path.compare_eq_iff.2 hsame] at hlt
        cases hlt
      rw [List.find?_cons, hother]

theorem files_eq (h : r.Sorted) :
    r.files = r.paths.map fun p => (p, (r.violationsOf? p).getD []) := by
  rw [paths, List.map_map]
  exact entries_eq_map (List.pairwise_map.1 h)

end Report

end TwigStyle
