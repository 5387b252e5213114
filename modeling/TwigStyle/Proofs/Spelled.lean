import TwigStyle.Proofs.Ids
import TwigStyle.Proofs.Lookahead

/-!
# How operators are spelled

Between the words of an operator any blanks may stand, line breaks included, so an operator has many
spellings (`Operator.Spells`).  What the lexer takes for an operator is a spelling of one in its table
(`Lexer.spells_of_operator?`); it starts and ends with a character of a word.
-/

namespace TwigStyle

namespace Operator

variable {ws : List (List Char)} {t r v : List Char}

/-- A text spells some words: one after the other, with blanks in between. -/
inductive Spells : List (List Char) → List Char → Prop
  | word (w : List Char) : Spells [w] w
  | more {w gap v : List Char} {ws : List (List Char)} (hne : gap ≠ [])
      (hgap : ∀ c ∈ gap, Text.isBlank c = true) (h : Spells ws v) :
    Spells (w :: ws) (w ++ (gap ++ v))

theorem words_solid (op : Operator) :
    ∀ w ∈ op.words, w ≠ [] ∧ ∀ c ∈ w, Text.isBlank c = false := by
  intro w hw
  obtain ⟨hmem, hne⟩ := List.mem_filter.1 hw
  exact ⟨by simpa using hne, Text.splitWhere_solid _ w hmem⟩

theorem spells_of_afterWords? (hne : ws ≠ []) (h : afterWords? ws t = some r) :
    ∃ v, t = v ++ r ∧ Spells ws v := by
  induction ws generalizing t with
  | nil => exact absurd rfl hne
  | cons w ws ih =>
    cases ws with
    | nil => exact ⟨w, afterWords?_singleton.1 h, .word w⟩
    | cons w' ws =>
      obtain ⟨c, rest, rfl, hc, hrest⟩ := afterWords?_cons_cons.1 h
      obtain ⟨v, hv, hspells⟩ := ih (List.cons_ne_nil _ _) hrest
      refine ⟨w ++ (c :: rest.takeWhile Text.isBlank ++ v), ?_, .more (List.cons_ne_nil _ _) ?_ hspells⟩
      · rw [List.append_assoc, List.append_assoc, ← hv, List.cons_append,
          List.takeWhile_append_dropWhile]
      · intro d hd
        rcases List.mem_cons.1 hd with rfl | hd
        · exact hc
        · exact of_mem_takeWhile hd

section Solid

variable (hws : ∀ w ∈ ws, w ≠ [] ∧ ∀ c ∈ w, Text.isBlank c = false)

include hws

theorem Spells.head? (h : Spells ws v) : ∃ c, v.head? = some c ∧ Text.isBlank c = false := by
  obtain ⟨w, u, hw, rfl⟩ : ∃ w u, w ∈ ws ∧ v = w ++ u := by
    cases h with
    | word => exact ⟨v, [], List.mem_cons_self, (List.append_nil v).symm⟩
    | more => exact ⟨_, _, List.mem_cons_self, rfl⟩
  obtain ⟨hne, hsolid⟩ := hws w hw
  obtain ⟨c, w, rfl⟩ := List.exists_cons_of_ne_nil hne
  exact ⟨c, rfl, hsolid c List.mem_cons_self⟩

theorem Spells.getLast? (h : Spells ws v) : ∃ c, v.getLast? = some c ∧ Text.isBlank c = false := by
  induction h with
  | word w =>
    obtain ⟨hne, hsolid⟩ := hws w List.mem_cons_self
    exact ⟨w.getLast hne, List.getLast?_eq_some_getLast hne, hsolid _ (List.getLast_mem hne)⟩
  | @more w gap v ws _ _ _ ih =>
    obtain ⟨c, hlast, hc⟩ := ih fun w' hw' => hws w' (List.mem_cons_of_mem w hw')
    refine ⟨c, ?_, hc⟩
    rw [List.getLast?_append, List.getLast?_append, hlast]
    rfl

theorem Spells.two_le (h : Spells ws v) {c : Char} (hmem : c ∈ v) (hc : Text.isBlank c = true) :
    2 ≤ ws.length := by
  cases h with
  | word =>
    rw [(hws v List.mem_cons_self).2 c hmem] at hc
    cases hc
  | more _ _ h => cases h <;> simp

end Solid

end Operator

namespace Lexer

variable {s : Lexer} {table : OperatorTable} {c : Char} {t : List Char} {more : Nat}

/-- An operator in code spells an operator of the table.  One without words takes the one character
    that every step takes. -/
theorem spells_of_operator? (h : s.operator? table c t = some more) :
    more = 0 ∨ ∃ op ∈ table.operators, Operator.Spells op.words (c :: t.take more) := by
  unfold operator? at h
  split at h
  · cases h
  · rename_i r hafter
    split at h
    · cases h
    · cases h
      obtain ⟨op, hop, hr⟩ := List.exists_of_findSome?_eq_some hafter
      obtain ⟨hwords, -⟩ := Operator.after?_eq_some_iff.1 hr
      by_cases hne : op.words = []
      · rw [hne] at hwords
        cases hwords
        exact .inl (by simp)
      · obtain ⟨v, hv, hspells⟩ := Operator.spells_of_afterWords? hne hwords
        refine .inr ⟨op, hop, ?_⟩
        have hlength : v.length = t.length - r.length + 1 := by
          obtain ⟨a, hhead, -⟩ := hspells.head? op.words_solid
          have := List.length_pos_iff.2 (List.ne_nil_of_mem (List.mem_of_head? hhead))
          have := congrArg List.length hv
          simp only [List.length_cons, List.length_append] at *
          omega
        have hvalue : c :: t.take (t.length - r.length) = v := by
          rw [← List.take_succ_cons, hv, ← hlength, List.take_left]
        rwa [hvalue]

theorem operator?_last (hc : Text.isLayout c = false) (h : s.operator? table c t = some more) :
    (c :: t.take more).getLast? ≠ some '\r' := by
  intro hlast
  rcases spells_of_operator? h with rfl | ⟨op, -, hspells⟩
  · cases hlast
    cases hc
  · obtain ⟨a, ha, hblank⟩ := hspells.getLast? op.words_solid
    rw [hlast] at ha
    cases ha
    cases hblank

end Lexer

end TwigStyle
