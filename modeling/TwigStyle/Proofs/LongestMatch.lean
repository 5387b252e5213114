import TwigStyle.Proofs.Reporting
import TwigStyle.Proofs.Spelled

/-!
# The longest operator wins

A table tries its operators in the order of their size in bytes, as they are written in the table,
and takes the first one that matches.  What an operator takes of a template can be longer than
that, since any blanks may stand between its words, and a longer operator may fail on the word
boundary behind it.  Still no operator of the table would have taken more: of two operators that are
spelled at the same place, the one that takes more is the larger one (`Spells.byteSize_lt`).

The reason is that words hold no blanks.  Two spellings at the same place go through the same words
and the same blanks, until one of them comes to its last word.
-/

namespace TwigStyle

/-- A text can be cut in one way only where its characters start to satisfy `p`. -/
theorem append_cut {p : Char → Bool} {u u' x x' : List Char} (hu : ∀ c ∈ u, p c = false)
    (hu' : ∀ c ∈ u', p c = false) (hx : ∃ c, x.head? = some c ∧ p c = true)
    (hx' : ∃ c, x'.head? = some c ∧ p c = true) (h : u ++ x = u' ++ x') : u = u' ∧ x = x' := by
  refine append_inj_of_boundary (p := (!p ·)) (by simpa using hu) (by simpa using hu') ?_ ?_ h
  · obtain ⟨c, hhead, hc⟩ := hx
    simp [hhead, hc]
  · obtain ⟨c, hhead, hc⟩ := hx'
    simp [hhead, hc]

namespace Operator

variable {op : Operator} {ws ws' : List (List Char)} {t v v' r r' a : List Char}

/-! ### Sizes -/

theorem byteSize_append (a b : List Char) :
    byteSize ⟨a ++ b⟩ = byteSize ⟨a⟩ + byteSize ⟨b⟩ := by
  induction a with
  | nil => simp [byteSize]
  | cons c a ih =>
    simp only [byteSize, List.cons_append, List.foldr_cons] at ih ⊢
    rw [ih, Nat.add_assoc]

theorem byteSize_pos (h : a ≠ []) : 0 < byteSize ⟨a⟩ := by
  obtain ⟨c, a, rfl⟩ := List.exists_cons_of_ne_nil h
  have := c.utf8Size_pos
  simp only [byteSize, List.foldr_cons]
  omega

theorem byteSize_lt_intercalate {w : List Char} (hne : ws ≠ []) :
    byteSize ⟨w⟩ < byteSize ⟨[' '].intercalate ((w ++ a) :: ws)⟩ := by
  have hspace : 0 < byteSize ⟨[' ']⟩ := byteSize_pos (List.cons_ne_nil _ _)
  rw [List.intercalate_cons_of_ne_nil hne, byteSize_append, byteSize_append, byteSize_append]
  omega

/-! ### Two spellings at one place -/

theorem Spells.ne_nil (h : Spells ws v) : ws ≠ [] := by
  cases h with
  | word | more => exact List.cons_ne_nil _ _

theorem head?_gap {gap : List Char} (hne : gap ≠ [])
    (hgap : ∀ c ∈ gap, Text.isBlank c = true) (y : List Char) :
    ∃ c, (gap ++ y).head? = some c ∧ Text.isBlank c = true := by
  obtain ⟨c, gap, rfl⟩ := List.exists_cons_of_ne_nil hne
  exact ⟨c, rfl, hgap c List.mem_cons_self⟩

section

variable (hws : ∀ w ∈ ws, w ≠ [] ∧ ∀ c ∈ w, Text.isBlank c = false)
include hws

theorem Spells.head?_append (h : Spells ws v) (r : List Char) :
    ∃ c, (v ++ r).head? = some c ∧ (!Text.isBlank c) = true := by
  obtain ⟨c, hhead, hc⟩ := h.head? hws
  refine ⟨c, ?_, by simp [hc]⟩
  rw [List.head?_append, hhead, Option.some_or]

/-- Of two spellings at the same place, the one that reaches farther is that of the larger words. -/
theorem Spells.byteSize_lt (hws' : ∀ w ∈ ws', w ≠ [] ∧ ∀ c ∈ w, Text.isBlank c = false)
    (h : Spells ws v) (h' : Spells ws' v') (hsame : v ++ r = v' ++ r')
    (hlt : v'.length < v.length) :
    byteSize ⟨[' '].intercalate ws'⟩ < byteSize ⟨[' '].intercalate ws⟩ := by
  induction h generalizing ws' v' with
  | word w =>
    -- The shorter spelling is a proper part of the only word.
    obtain ⟨a, rfl⟩ : ∃ a, w = v' ++ a := by
      have hpre : v' <+: w :=
        List.prefix_of_prefix_length_le ⟨r', hsame.symm⟩ ⟨r, rfl⟩ (Nat.le_of_lt hlt)
      obtain ⟨a, ha⟩ := hpre
      exact ⟨a, ha.symm⟩
    have hsolid := (hws _ List.mem_cons_self).2
    cases h' with
    | word =>
      have hne : a ≠ [] := by
        rintro rfl
        simp at hlt
      have := byteSize_pos hne
      rw [List.intercalate_singleton, List.intercalate_singleton, byteSize_append]
      omega
    | more hne hgap _ =>
      obtain ⟨c, hmem⟩ := List.exists_mem_of_ne_nil _ hne
      have hblank := hgap c hmem
      rw [hsolid c (by simp [hmem])] at hblank
      cases hblank
  | @more w gap u ws hne hgap h ih =>
    have hw := hws w List.mem_cons_self
    rw [List.append_assoc, List.append_assoc] at hsame
    cases h' with
    | word =>
      -- The last word of the shorter spelling holds no blank: it ends within the first word here.
      have hw' := hws' v' List.mem_cons_self
      obtain ⟨a, rfl⟩ : ∃ a, w = v' ++ a := by
        rcases List.append_eq_append_iff.1 hsame with ⟨a, rfl, ha⟩ | ⟨a, rfl, -⟩
        · cases a with
          | nil => exact ⟨[], by simp⟩
          | cons d a =>
            obtain ⟨c, hhead, hc⟩ := head?_gap hne hgap (u ++ r)
            rw [ha] at hhead
            obtain rfl : d = c := Option.some.inj hhead
            rw [hw'.2 d (by simp)] at hc
            cases hc
        · exact ⟨a, rfl⟩
      rw [List.intercalate_singleton]
      exact byteSize_lt_intercalate h.ne_nil
    | @more w' gap' u' ws' hne' hgap' h' =>
      have hw' := hws' w' List.mem_cons_self
      have hrest : ∀ w ∈ ws, w ≠ [] ∧ ∀ c ∈ w, Text.isBlank c = false :=
        fun x hx => hws x (List.mem_cons_of_mem w hx)
      have hrest' : ∀ w ∈ ws', w ≠ [] ∧ ∀ c ∈ w, Text.isBlank c = false :=
        fun x hx => hws' x (List.mem_cons_of_mem w' hx)
      rw [List.append_assoc, List.append_assoc] at hsame
      -- Both have the same first word and the same blanks behind it.
      obtain ⟨rfl, hgaps⟩ := append_cut hw.2 hw'.2 (head?_gap hne hgap _) (head?_gap hne' hgap' _)
        hsame
      obtain ⟨rfl, hbehind⟩ := append_cut (p := (!Text.isBlank ·)) (by simpa using hgap)
        (by simpa using hgap') (h.head?_append hrest r) (h'.head?_append hrest' r') hgaps
      have hlt' : u'.length < u.length := by
        simp only [List.length_append] at hlt
        omega
      have := ih hrest hrest' h' hbehind hlt'
      rw [List.intercalate_cons_of_ne_nil h.ne_nil, List.intercalate_cons_of_ne_nil h'.ne_nil,
        byteSize_append (w ++ _), byteSize_append (w ++ _)]
      omega

theorem Spells.afterWords? (h : Spells ws v) (r : List Char) :
    afterWords? ws (v ++ r) = some r := by
  induction h with
  | word w => exact afterWords?_singleton.2 rfl
  | @more w gap u ws hne hgap h ih =>
    have hrest : ∀ w ∈ ws, w ≠ [] ∧ ∀ c ∈ w, Text.isBlank c = false :=
      fun x hx => hws x (List.mem_cons_of_mem w hx)
    obtain ⟨w', ws, rfl⟩ := List.exists_cons_of_ne_nil h.ne_nil
    obtain ⟨c, gap, rfl⟩ := List.exists_cons_of_ne_nil hne
    obtain ⟨d, hhead, hd⟩ := h.head?_append hrest r
    have hdrop : (gap ++ (u ++ r)).dropWhile Text.isBlank = u ++ r := by
      obtain ⟨y, hy⟩ := List.head?_eq_some_iff.1 hhead
      rw [List.dropWhile_append_of_pos fun a ha => hgap a (List.mem_cons_of_mem c ha), hy,
        List.dropWhile_cons_of_neg (by simpa using hd)]
    refine afterWords?_cons_cons.2 ⟨c, gap ++ (u ++ r), by simp, hgap c List.mem_cons_self, ?_⟩
    rw [hdrop]
    exact ih hrest

end

/-! ### What it means to match -/

/-- An operator as it is handed to a table.  Blanks at its ends do not count. -/
def ofString (s : String) : Operator := ⟨Text.trim s.toList⟩

/-- There is a single space between two words. -/
def SinglySpaced (op : Operator) : Prop := op.text = [' '].intercalate op.words

instance (op : Operator) : Decidable op.SinglySpaced := inferInstanceAs (Decidable (_ = _))

/-- The operator matches `v` in front of `r`: `v` spells its words, and if it ends with a letter,
    then a word ends there. -/
structure Matches (op : Operator) (v r : List Char) : Prop where
  spells : Spells op.words v
  boundary : op.needsBoundary = true → atBoundary r = true

theorem after?_eq_some_iff_matches (hne : op.words ≠ []) :
    op.after? t = some r ↔ ∃ v, t = v ++ r ∧ op.Matches v r := by
  rw [after?_eq_some_iff]
  constructor
  · rintro ⟨hwords, hboundary⟩
    obtain ⟨v, ht, hspells⟩ := spells_of_afterWords? hne hwords
    exact ⟨v, ht, hspells, hboundary⟩
  · rintro ⟨v, rfl, hspells, hboundary⟩
    exact ⟨hspells.afterWords? op.words_solid r, hboundary⟩

theorem Matches.length_le {op' : Operator} (hop : op.SinglySpaced) (hop' : op'.SinglySpaced)
    (h : op.Matches v r) (h' : op'.Matches v' r') (hsame : v ++ r = v' ++ r')
    (hle : op.byteSize ≤ op'.byteSize) : v.length ≤ v'.length := by
  apply Nat.le_of_not_lt
  intro hlt
  have hsize := h.spells.byteSize_lt op.words_solid op'.words_solid h'.spells hsame hlt
  rw [← hop, ← hop'] at hsize
  exact Nat.not_lt.2 hle hsize

end Operator

/-! ### The order of a table -/

namespace OperatorTable

variable {op o : Operator} {os : List Operator} {unary binary : List String} {t r : List Char}
  {ts : List (List Char)}

theorem compare_eq_iff : op.compare o = .eq ↔ op = o := by
  constructor
  · intro h
    obtain ⟨-, htext⟩ := Ordering.then_eq_eq.1 h
    have htext : op.text = o.text := Path.compareText_eq_iff.1 htext
    cases op
    cases o
    cases htext
    rfl
  · rintro rfl
    exact Ordering.then_eq_eq.2 ⟨Nat.compare_eq_eq.2 rfl, Path.compareText_eq_iff.2 rfl⟩

theorem mem_insert : o ∈ insert op os ↔ o = op ∨ o ∈ os := by
  induction os with
  | nil => simp [insert]
  | cons a os ih =>
    unfold insert
    split
    · simp
    · rename_i hcompare
      rw [compare_eq_iff.1 hcompare]
      simp
    · rw [List.mem_cons, List.mem_cons, ih]
      exact or_left_comm

theorem pairwise_insert (h : os.Pairwise fun a b => b.byteSize ≤ a.byteSize) :
    (insert op os).Pairwise fun a b => b.byteSize ≤ a.byteSize := by
  induction os with
  | nil => exact List.pairwise_singleton _ _
  | cons a os ih =>
    obtain ⟨ha, hos⟩ := List.pairwise_cons.1 h
    unfold insert
    split
    · rename_i hcompare
      have hle : a.byteSize ≤ op.byteSize := by
        rcases Ordering.then_eq_lt.1 hcompare with hlt | ⟨heq, -⟩
        · exact Nat.le_of_lt (Nat.compare_eq_lt.1 hlt)
        · exact Nat.le_of_eq (Nat.compare_eq_eq.1 heq)
      refine List.pairwise_cons.2 ⟨?_, h⟩
      intro b hb
      rcases List.mem_cons.1 hb with rfl | hb
      · exact hle
      · exact Nat.le_trans (ha b hb) hle
    · exact h
    · rename_i hcompare
      have hle : op.byteSize ≤ a.byteSize := by
        rcases Ordering.then_eq_gt.1 hcompare with hgt | ⟨heq, -⟩
        · exact Nat.le_of_lt (Nat.compare_eq_gt.1 hgt)
        · exact Nat.le_of_eq (Nat.compare_eq_eq.1 heq).symm
      refine List.pairwise_cons.2 ⟨?_, ih hos⟩
      intro b hb
      rcases mem_insert.1 hb with rfl | hb
      · exact hle
      · exact ha b hb

theorem mem_foldl_insert : o ∈ ts.foldl (fun os t => insert ⟨t⟩ os) os ↔ o ∈ os ∨ o.text ∈ ts := by
  induction ts generalizing os with
  | nil => simp
  | cons t ts ih =>
    have hhead : o = ⟨t⟩ ↔ o.text = t := ⟨fun h => h ▸ rfl, fun h => h ▸ rfl⟩
    rw [List.foldl_cons, ih, mem_insert, List.mem_cons, hhead]
    exact ⟨fun h => h.elim (·.elim (.inr ∘ .inl) .inl) (.inr ∘ .inr),
      fun h => h.elim (.inl ∘ .inr) (·.elim (.inl ∘ .inl) .inr)⟩

theorem pairwise_foldl_insert (h : os.Pairwise fun a b => b.byteSize ≤ a.byteSize) :
    (ts.foldl (fun os t => insert ⟨t⟩ os) os).Pairwise fun a b => b.byteSize ≤ a.byteSize := by
  induction ts generalizing os with
  | nil => exact h
  | cons t ts ih => exact ih (pairwise_insert h)

/-- The operators of a table: those handed in that are not blank, and `=`. -/
theorem mem_build : o ∈ (build unary binary).operators ↔
    o.text ≠ [] ∧ ∃ s ∈ "=" :: unary ++ binary, o = .ofString s := by
  have htext : ∀ s, o = .ofString s ↔ Text.trim s.toList = o.text := by
    intro s
    constructor
    · rintro rfl
      rfl
    · intro h
      cases o
      rw [Operator.ofString, h]
  simp only [build, mem_foldl_insert, List.not_mem_nil, false_or, List.mem_filter, List.mem_map,
    Bool.not_eq_true', List.isEmpty_eq_false_iff, htext]
  exact and_comm

/-- The text behind the longest match of some operators. -/
def Longest (ops : List Operator) (t r : List Char) : Prop :=
  ∃ v, t = v ++ r ∧ (∃ op ∈ ops, op.Matches v r) ∧
    ∀ op ∈ ops, ∀ v' r', t = v' ++ r' → op.Matches v' r' → v'.length ≤ v.length

theorem Longest.unique {ops : List Operator} {r' : List Char} (h : Longest ops t r)
    (h' : Longest ops t r') : r = r' := by
  obtain ⟨v, hv, ⟨op, hop, hmatch⟩, hlongest⟩ := h
  obtain ⟨v', hv', ⟨op', hop', hmatch'⟩, hlongest'⟩ := h'
  have hlength : v.length = v'.length :=
    Nat.le_antisymm (hlongest' op hop v r hv hmatch) (hlongest op' hop' v' r' hv' hmatch')
  exact (List.append_inj (hv.symm.trans hv') hlength).2

theorem mem_of_matches {s : String} (hs : s ∈ "=" :: unary ++ binary) {v : List Char}
    (h : (Operator.ofString s).Matches v r) :
    Operator.ofString s ∈ (build unary binary).operators := by
  refine mem_build.2 ⟨?_, s, hs, rfl⟩
  intro hnil
  apply h.spells.ne_nil
  rw [Operator.words, hnil]
  rfl

section Build

variable (hspaced : ∀ s ∈ unary ++ binary, (Operator.ofString s).SinglySpaced) {s : String}

include hspaced

theorem singlySpaced_ofString (hs : s ∈ "=" :: unary ++ binary) :
    (Operator.ofString s).SinglySpaced := by
  rcases List.mem_cons.1 hs with rfl | hs
  · decide
  · exact hspaced s hs

theorem words_ne_nil (hop : op ∈ (build unary binary).operators) : op.words ≠ [] := by
  obtain ⟨hne, s, hs, rfl⟩ := mem_build.1 hop
  intro hnil
  apply hne
  rw [singlySpaced_ofString hspaced hs, hnil]
  rfl

theorem longest_of_after? (h : (build unary binary).after? t = some r) :
    Longest (("=" :: unary ++ binary).map .ofString) t r := by
  obtain ⟨before, op, behind, hsplit, hop, hnone⟩ := List.findSome?_eq_some_iff.1 h
  have hmem : op ∈ (build unary binary).operators := by simp [hsplit]
  obtain ⟨-, s, hs, rfl⟩ := mem_build.1 hmem
  obtain ⟨v, hv, hmatch⟩ := (Operator.after?_eq_some_iff_matches (words_ne_nil hspaced hmem)).1 hop
  refine ⟨v, hv, ⟨_, List.mem_map_of_mem hs, hmatch⟩, ?_⟩
  intro op' hop' v' r' hv' hmatch'
  obtain ⟨s', hs', rfl⟩ := List.mem_map.1 hop'
  have hmem' := mem_of_matches hs' hmatch'
  have hafter := (Operator.after?_eq_some_iff_matches (words_ne_nil hspaced hmem')).2
    ⟨v', hv', hmatch'⟩
  -- It comes no earlier in the table, so it is no larger.
  have hle : (Operator.ofString s').byteSize ≤ (Operator.ofString s).byteSize := by
    have hsorted : (build unary binary).operators.Pairwise fun a b => b.byteSize ≤ a.byteSize :=
      pairwise_foldl_insert .nil
    rw [hsplit] at hsorted hmem'
    rcases List.mem_append.1 hmem' with hbefore | hbehind
    · rw [hnone _ hbefore] at hafter
      cases hafter
    · rcases List.mem_cons.1 hbehind with hsame | hbehind
      · exact Nat.le_of_eq (congrArg Operator.byteSize hsame)
      · exact (List.pairwise_cons.1 (List.pairwise_append.1 hsorted).2.1).1 _ hbehind
  exact hmatch'.length_le (singlySpaced_ofString hspaced hs') (singlySpaced_ofString hspaced hs)
    hmatch (hv'.symm.trans hv) hle

theorem after?_isSome (hs : s ∈ "=" :: unary ++ binary) {v : List Char} (hv : t = v ++ r)
    (h : (Operator.ofString s).Matches v r) : ∃ r', (build unary binary).after? t = some r' := by
  have hmem := mem_of_matches hs h
  have hafter := (Operator.after?_eq_some_iff_matches (words_ne_nil hspaced hmem)).2 ⟨v, hv, h⟩
  apply Option.ne_none_iff_exists'.1
  intro hnone
  rw [after?_eq_none_iff.1 hnone _ hmem] at hafter
  cases hafter

end Build

/-- **The longest operator wins.** A table of operators with single spaces between their words
    takes the longest match of all operators that were handed in, and of `=`; it takes none exactly
    if none of them matches. -/
theorem build_takes_longest
    (hspaced : ∀ s ∈ unary ++ binary, (Operator.ofString s).SinglySpaced) (t : List Char) :
    (∀ r, (build unary binary).after? t = some r ↔
      Longest (("=" :: unary ++ binary).map .ofString) t r) ∧
    ((build unary binary).after? t = none ↔
      ∀ s ∈ "=" :: unary ++ binary, ∀ v r, t = v ++ r → ¬(Operator.ofString s).Matches v r) := by
  constructor
  · intro r
    constructor
    · exact longest_of_after? hspaced
    · intro hlongest
      obtain ⟨v, hv, ⟨op, hop, hmatch⟩, -⟩ := id hlongest
      obtain ⟨s, hs, rfl⟩ := List.mem_map.1 hop
      obtain ⟨r', hr'⟩ := after?_isSome hspaced hs hv hmatch
      rw [hr', (longest_of_after? hspaced hr').unique hlongest]
  · constructor
    · intro hnone s hs v r hv hmatch
      obtain ⟨r', hr'⟩ := after?_isSome hspaced hs hv hmatch
      rw [hnone] at hr'
      cases hr'
    · intro hall
      apply Option.eq_none_iff_forall_ne_some.2
      intro r hr
      obtain ⟨v, hv, ⟨op, hop, hmatch⟩, -⟩ := longest_of_after? hspaced hr
      obtain ⟨s, hs, rfl⟩ := List.mem_map.1 hop
      exact hall s hs v r hv hmatch


/-- An operator of two words with a line break between them.  Where a name goes on behind it, its
    first word is left. -/
theorem build_takes_longest_words :
    (∀ s ∈ ["not"] ++ ["in", "not in"], (Operator.ofString s).SinglySpaced) ∧
      Longest (["=", "not", "in", "not in"].map .ofString) "not \n in b".toList " b".toList ∧
      Longest (["=", "not", "in", "not in"].map .ofString) "not index".toList " index".toList := by
  have hspaced : ∀ s ∈ ["not"] ++ ["in", "not in"], (Operator.ofString s).SinglySpaced := by
    decide +kernel
  have hboth : (build ["not"] ["in", "not in"]).after? "not \n in b".toList = some " b".toList := by
    decide +kernel
  have hfirst : (build ["not"] ["in", "not in"]).after? "not index".toList =
      some " index".toList := by
    decide +kernel
  exact ⟨hspaced, ((build_takes_longest hspaced _).1 _).1 hboth,
    ((build_takes_longest hspaced _).1 _).1 hfirst⟩

end OperatorTable

end TwigStyle
