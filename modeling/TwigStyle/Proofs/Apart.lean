import TwigStyle.Proofs.Places
import TwigStyle.Proofs.Respaced

/-!
# Where words end

A lexeme that ends with a letter ends a word: what stands right behind it could not continue the
word.  Names and words of template text reach as far as they can, a word operator asks for a boundary,
and everything else ends with another character.
-/

namespace TwigStyle

/-- No lexeme ends inside of a word; `rest` is the text behind them. -/
def Apart : List Lexeme → List Char → Prop :=
  Followed fun l t => l.2.getLast?.any Char.isAlpha = true → Operator.atBoundary t = true

theorem apart_append {ls ms : List Lexeme} {rest : List Char} :
    Apart (ls ++ ms) rest ↔ Apart ls (spell ms ++ rest) ∧ Apart ms rest := followed_append

theorem isWordChar_of_not_continuesName {a : Char} (h : Lexeme.continuesName a = false) :
    Text.isWordChar a = false := by
  simp only [Lexeme.continuesName, Lexeme.startsName, Bool.or_eq_false_iff, decide_eq_false_iff_not,
    beq_eq_false_iff_ne, Nat.not_le] at h
  obtain ⟨⟨⟨halpha, hline⟩, hlt⟩, hdigit⟩ := h
  rw [Text.isWordChar, if_pos hlt, Char.isAlphanum, halpha, hdigit]
  simpa using hline

namespace Lexeme

/-- Words of template text reach up to layout or up to the end of the text. -/
theorem apart_layoutAt (c : Char) (t : List Char) (rest : List Char)
    (hrest : Operator.atBoundary rest = true)
    (hlast : (c :: t.take (layoutAt c t).2).getLast?.any Char.isAlpha = true) :
    Operator.atBoundary (t.drop (layoutAt c t).2 ++ rest) = true := by
  cases hc : Text.isLayout c with
  | true =>
    -- Layout does not end with a letter.
    obtain ⟨-, hgap⟩ := layoutAt_of_layout hc t
    obtain ⟨a, ha⟩ := List.getLast?_isSome.2 (List.cons_ne_nil c (t.take (layoutAt c t).2))
      |> Option.isSome_iff_exists.1
    rw [ha, Option.any_some] at hlast
    have hlayout : Text.isLayout a = true := by
      rcases List.mem_cons.1 (List.mem_of_getLast? ha) with rfl | hmem
      · exact hc
      · exact hgap a hmem
    rw [isLayout_of_isAlpha hlast] at hlayout
    cases hlayout
  | false =>
    rw [layoutAt_of_solid hc]
    cases hdrop : t.drop (runLength (!Text.isLayout ·) t) with
    | nil => exact hrest
    | cons a r =>
      have ha := head?_drop_runLength (!Text.isLayout ·) t a (by rw [hdrop]; rfl)
      simp only [List.cons_append, Operator.atBoundary, Bool.not_eq_true']
      exact isWordChar_of_isLayout (by simpa using ha)

end Lexeme

namespace Lexer

variable {s s' : Lexer} {c : Char} {t rest : List Char}

theorem not_isAlpha_of_isDigit {a : Char} (h : a.isDigit = true) : a.isAlpha = false := by
  cases halpha : a.isAlpha with
  | false => rfl
  | true =>
    have hdigit := toNat_of_isDigit h
    have hletter := toNat_of_isAlpha halpha
    omega

theorem operator?_apart {more : Nat} (h : s.operator? OperatorTable.default c t = some more)
    (hlast : (c :: t.take more).getLast?.any Char.isAlpha = true) :
    Operator.atBoundary (t.drop more) = true := by
  have hsplit : t.take more ++ t.drop more = t := List.take_append_drop more t
  have hmore : more = (t.take more).length := by
    obtain ⟨-, -, r, -, rfl⟩ := operator?_start h
    rw [List.length_take]
    omega
  rw [← hsplit] at h
  obtain ⟨hafter, -⟩ := operator?_eq_some default_proper h hmore
  obtain ⟨op, hop, hr⟩ := List.exists_of_findSome?_eq_some hafter
  obtain ⟨hwords, hend⟩ := Operator.after?_eq_some_iff.1 hr
  refine hend ?_
  have husual := isUsual_of_mem_default hop
  unfold Operator.isUsual at husual
  split at husual
  · rename_i w hw
    simp only [Bool.and_eq_true, beq_iff_eq] at husual
    rw [hw] at hwords
    have htext := Operator.afterWords?_singleton.1 hwords
    rw [← List.cons_append] at htext
    rw [husual.1.2, ← List.append_cancel_right htext]
    exact hlast
  · simp only [Bool.and_eq_true] at husual
    exact husual.2
  · cases husual

theorem step_apart (h : s.step OperatorTable.default c t = .ok (s', rest)) :
    ∃ new, s'.emitted = s.emitted ++ new ∧ Apart new rest := by
  have hstarts : ∀ {rest : List Char}, (∀ a ∈ rest.head?, Lexeme.isMark a = true) →
      Operator.atBoundary rest = true := by
    intro rest hrest
    cases rest with
    | nil => rfl
    | cons a r =>
      have hmark := hrest a rfl
      simp only [Lexeme.isMark, Bool.and_eq_true, Bool.not_eq_true'] at hmark
      simp [Operator.atBoundary, isWordChar_of_not_continuesName hmark.2]
  refine step_followed ?_ (fun hrest _ => hstarts hrest) ?_ (fun _ hop => operator?_apart hop) ?_ h
  · intro k v rest hends hlast
    cases ha : v.getLast? with
    | none =>
      rw [ha] at hlast
      cases hlast
    | some a =>
      have halpha : a.isAlpha = true := by rwa [ha] at hlast
      rcases hends a ha with hmark | hdigit
      · simp [Lexeme.isMark, Lexeme.continuesName, Lexeme.startsName, halpha] at hmark
      · rw [not_isAlpha_of_isDigit hdigit] at halpha
        cases halpha
  · exact fun hrest => Lexeme.apart_layoutAt _ _ _ (hstarts hrest)
  · intro k hc _
    cases hdrop : t.drop (Lexeme.runLength Lexeme.continuesName t) with
    | nil => rfl
    | cons a r =>
      have ha := Lexeme.head?_drop_runLength Lexeme.continuesName t a (by rw [hdrop]; rfl)
      simp only [Operator.atBoundary, Bool.not_eq_true']
      exact isWordChar_of_not_continuesName ha

end Lexer

theorem tokenize_apart {source : List Char} {t : Template} {ls : List Lexeme}
    (ht : tokenize OperatorTable.default source = .ok t)
    (hls : t.stream.lexemes = ls ++ [(.eof, [])]) : Apart ls [] := by
  obtain ⟨s, hrun, -, rfl⟩ := tokenize_eq_ok_iff.1 ht
  have hemitted : s.emitted = ls := by
    have h : (s.emit .eof []).emitted = ls ++ [(.eof, [])] := hls
    rw [Lexer.emitted_emit] at h
    exact List.append_cancel_right h
  rw [← hemitted]
  exact Lexer.run_followed Lexer.step_apart hrun trivial

end TwigStyle
