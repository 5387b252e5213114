import TwigStyle.Proofs.Content
import TwigStyle.Proofs.Places

/-!
# Lines of a text without its spaces

How many lines a text has does not depend on its spaces and tabs, with one exception: a carriage return
and a line feed are two line breaks as long as something stands between them, and one if nothing does.
Where they are not parted by spaces and tabs (`parted`), the lines can be counted without those
(`lineBreakCount_unspaced`).

A text that is put together from pieces has at most the lines of the pieces, and exactly these if no
piece ends between a carriage return and its line feed (`lineBreakCount_spell_le`,
`lineBreakCount_spell`).
-/

namespace TwigStyle

/-- A space or a tab. -/
def isSpacing (c : Char) : Bool := c == ' ' || c == '\t'

/-- A text without its spaces and tabs. -/
def unspaced (t : List Char) : List Char := t.filter (!isSpacing ·)

/-- Do only spaces and tabs, at least one, part a carriage return from a line feed? -/
def parted : List Char → Bool
  | [] => false
  | c :: t =>
    c == '\r' && t.head?.any isSpacing && (t.dropWhile isSpacing).head? == some '\n' || parted t

variable {t u a a' r r' : List Char} {c : Char} {ls ms : List Lexeme}

/-! ### Counting -/

theorem lineBreakCount_cons (c : Char) (t : List Char) :
    lineBreakCount (c :: t) =
      lineBreakCount t + if endsLine c && !(c == '\r' && t.head? == some '\n') then 1 else 0 := by
  by_cases hcr : c = '\r'
  · subst hcr
    cases t with
    | nil => rfl
    | cons d t =>
      by_cases hlf : d = '\n'
      · subst hlf
        simp [lineBreakCount]
      · have hcount : lineBreakCount ('\r' :: d :: t) = lineBreakCount (d :: t) + 1 := by
          rw [lineBreakCount]
          intro w hw
          exact hlf (List.cons.inj hw).1
        simp [hcount, endsLine, hlf]
  · by_cases hlf : c = '\n'
    · subst hlf
      simp [lineBreakCount, endsLine]
    · have hcount : lineBreakCount (c :: t) = lineBreakCount t := by
        rw [lineBreakCount]
        · intro w hw
          exact absurd hw hcr
        · exact hcr
        · exact hlf
      simp [hcount, endsLine, hcr, hlf]

theorem ite_and_le (p q : Bool) : (if p && q then 1 else 0) ≤ if p then 1 else 0 := by
  cases p <;> cases q <;> decide

theorem lineBreakCount_append_le (t u : List Char) :
    lineBreakCount (t ++ u) ≤ lineBreakCount t + lineBreakCount u := by
  induction t with
  | nil => simp [lineBreakCount]
  | cons c t ih =>
    rw [List.cons_append, lineBreakCount_cons, lineBreakCount_cons]
    cases t with
    | nil =>
      -- The line feed that belongs to `c` may come first in `u`.
      have hle := ite_and_le (endsLine c) (!(c == '\r' && u.head? == some '\n'))
      have hlast : (endsLine c && !(c == '\r' && ([] : List Char).head? == some '\n')) = endsLine c := by
        simp
      rw [hlast, List.nil_append, lineBreakCount]
      omega
    | cons d t =>
      rw [List.cons_append, List.head?_cons, List.head?_cons]
      rw [List.cons_append] at ih
      omega

theorem lineBreakCount_append (h : t.getLast? = some '\r' → u.head? ≠ some '\n') :
    lineBreakCount (t ++ u) = lineBreakCount t + lineBreakCount u := by
  have hline := congrArg Position.line (Position.after_append h Position.start)
  rw [Position.after_eq, Position.after_eq, Position.after_eq] at hline
  simp only at hline
  omega

/-! ### Spaces and tabs -/

theorem isSpacing_eq_false_of_endsLine (h : endsLine c = true) : isSpacing c = false := by
  simp only [endsLine, Bool.or_eq_true, beq_iff_eq] at h
  rcases h with rfl | rfl <;> rfl

theorem unspaced_append (t u : List Char) : unspaced (t ++ u) = unspaced t ++ unspaced u :=
  List.filter_append ..

theorem unspaced_spell (ls : List Lexeme) :
    unspaced (spell ls) = (ls.map fun l => unspaced l.2).flatten := by
  rw [spell, unspaced, List.filter_flatten, List.map_map]
  rfl

theorem unspaced_of_blank (h : ∀ c ∈ t, isSpacing c = true) : unspaced t = [] := by
  refine List.filter_eq_nil_iff.2 fun c hc => ?_
  simp [h c hc]

theorem lineBreakCount_of_blank (h : ∀ c ∈ t, isSpacing c = true) : lineBreakCount t = 0 := by
  refine lineBreakCount_eq_zero_iff.2 (List.any_eq_false.2 fun c hc hends => ?_)
  have hspacing := h c hc
  rw [isSpacing_eq_false_of_endsLine hends] at hspacing
  cases hspacing

theorem content_unspaced (t : List Char) : content (unspaced t) = content t := by
  rw [content, unspaced, List.filter_filter]
  refine List.filter_congr fun c _ => ?_
  cases hc : isSpacing c with
  | false => simp
  | true =>
    simp only [isSpacing, Bool.or_eq_true, beq_iff_eq] at hc
    rcases hc with rfl | rfl <;> rfl

theorem head?_unspaced (t : List Char) : (unspaced t).head? = (t.dropWhile isSpacing).head? := by
  induction t with
  | nil => rfl
  | cons c t ih =>
    cases hc : isSpacing c with
    | true => simpa [unspaced, hc] using ih
    | false => simp [unspaced, hc]

theorem lineBreakCount_cons_of_isSpacing (hc : isSpacing c = true) (t : List Char) :
    lineBreakCount (c :: t) = lineBreakCount t := by
  have hends : endsLine c = false := by
    rw [Bool.eq_false_iff]
    intro hends
    rw [isSpacing_eq_false_of_endsLine hends] at hc
    cases hc
  rw [lineBreakCount_cons, hends]
  rfl

theorem lineBreakCount_unspaced_cons (hc : isSpacing c = false) (t : List Char) :
    lineBreakCount (unspaced (c :: t)) = lineBreakCount (unspaced t) +
      if endsLine c && !(c == '\r' && (t.dropWhile isSpacing).head? == some '\n') then 1 else 0 := by
  have hcons : unspaced (c :: t) = c :: unspaced t := by simp [unspaced, hc]
  rw [hcons, lineBreakCount_cons, head?_unspaced]

theorem lineBreakCount_unspaced_le (t : List Char) :
    lineBreakCount (unspaced t) ≤ lineBreakCount t := by
  induction t with
  | nil => exact Nat.le_refl _
  | cons c t ih =>
    cases hc : isSpacing c with
    | true =>
      have hskip : unspaced (c :: t) = unspaced t := by simp [unspaced, hc]
      rw [hskip, lineBreakCount_cons_of_isSpacing hc]
      exact ih
    | false =>
      have hhead : t.head? = some '\n' → (t.dropWhile isSpacing).head? = some '\n' := by
        intro hhead
        obtain ⟨w, rfl⟩ := List.head?_eq_some_iff.1 hhead
        rfl
      rw [lineBreakCount_unspaced_cons hc, lineBreakCount_cons]
      apply Nat.add_le_add ih
      by_cases hlf : t.head? = some '\n'
      · exact Nat.le_of_eq (by rw [hlf, hhead hlf])
      · rw [beq_false_of_ne hlf, Bool.and_false, Bool.not_false, Bool.and_true]
        exact ite_and_le _ _

/-- It does not if no line break is parted. -/
theorem lineBreakCount_unspaced (h : parted t = false) :
    lineBreakCount (unspaced t) = lineBreakCount t := by
  induction t with
  | nil => rfl
  | cons c t ih =>
    rw [parted, Bool.or_eq_false_iff] at h
    obtain ⟨hfirst, hrest⟩ := h
    cases hc : isSpacing c with
    | true =>
      have hskip : unspaced (c :: t) = unspaced t := by simp [unspaced, hc]
      rw [hskip, lineBreakCount_cons_of_isSpacing hc, ih hrest]
    | false =>
      rw [lineBreakCount_unspaced_cons hc, lineBreakCount_cons, ih hrest]
      -- The next character is no space, or the line feed behind the spaces does not count.
      cases t with
      | nil => rfl
      | cons d t =>
        cases hd : isSpacing d with
        | false => rw [List.dropWhile_cons_of_neg (by simp [hd])]
        | true =>
          have hlf : d ≠ '\n' := by
            rintro rfl
            cases hd
          rw [List.head?_cons, Option.any_some, hd, Bool.and_true] at hfirst
          rw [hfirst, List.head?_cons, beq_false_of_ne (fun heq => hlf (Option.some.inj heq)),
            Bool.and_false]

/-! ### Pieces -/

theorem lineBreakCount_spell_cons {l : Lexeme} (h : Unsplit (l :: ls) (a ++ r)) :
    lineBreakCount (spell (l :: ls) ++ a) = lineBreakCount l.2 + lineBreakCount (spell ls ++ a) := by
  rw [spell_cons, List.append_assoc]
  apply lineBreakCount_append
  intro hlast hhead
  refine h.1 hlast ?_
  rw [← List.append_assoc, List.head?_append, hhead]
  rfl

theorem lineBreakCount_spell_le (hlines : ls.map (fun l => lineBreakCount l.2) =
      ms.map fun l => lineBreakCount l.2)
    (hls : Unsplit ls (a ++ r)) (ha : lineBreakCount a' = lineBreakCount a) :
    lineBreakCount (spell ms ++ a') ≤ lineBreakCount (spell ls ++ a) := by
  induction ls generalizing ms with
  | nil =>
    cases ms with
    | nil => exact Nat.le_of_eq ha
    | cons m ms => cases hlines
  | cons l ls ih =>
    cases ms with
    | nil => cases hlines
    | cons m ms =>
      obtain ⟨hfirst, hrest⟩ := List.cons.inj hlines
      simp only at hfirst
      have hle := lineBreakCount_append_le m.2 (spell ms ++ a')
      have hih := ih hrest hls.2
      rw [lineBreakCount_spell_cons hls, spell_cons, List.append_assoc]
      omega

theorem lineBreakCount_spell (hlines : ls.map (fun l => lineBreakCount l.2) =
      ms.map fun l => lineBreakCount l.2)
    (hls : Unsplit ls (a ++ r)) (hms : Unsplit ms (a' ++ r'))
    (ha : lineBreakCount a' = lineBreakCount a) :
    lineBreakCount (spell ms ++ a') = lineBreakCount (spell ls ++ a) :=
  Nat.le_antisymm (lineBreakCount_spell_le hlines hls ha)
    (lineBreakCount_spell_le hlines.symm hms ha.symm)

end TwigStyle
