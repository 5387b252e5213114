import TwigStyle.Proofs.Enclosed

/-!
# The innermost bracket

The search for the bracket around a place walks backwards and jumps over pairs that are closed
there.  In a template it ends, after no more steps than there are tokens, at the last of all
brackets that were opened before the place and are closed there or later
(`tokenize_enclosingBracket`).

Nothing of this is true of any row of tokens.  It rests on the pairs: a jump leads backwards
because the partner of a closing bracket stands before it, and it passes over no bracket that is
still open because pairs do not cross.  Both come with the grammar of nested tokens, so the
induction is on that: nested tokens as a whole are passed over (`Nested.innermost` at their end),
and a place among them has its innermost bracket there or before all of them.
-/

namespace TwigStyle

namespace TokenStream

variable {s : TokenStream} {n i o : Nat} {t : Token} {before found : BracketSearch}

/-- The token at `o` is a bracket that was opened before `i` and is closed there or later. -/
def Around (s : TokenStream) (i o : Nat) : Prop :=
  o < i ∧ ∃ a j, s.get? o = some a ∧ a.opensBracket = true ∧ a.related = some j ∧ i ≤ j

/-- What is found from `n` on: the last bracket around `i`, or what was found `before` if there is
    none around `i` from `n` on. -/
def Innermost (s : TokenStream) (n i : Nat) (before found : BracketSearch) : Prop :=
  (found = before ∧ ∀ o, n ≤ o → ¬s.Around i o) ∨
    ∃ o, found = .found o ∧ n ≤ o ∧ s.Around i o ∧ ∀ o', s.Around i o' → o' ≤ o

theorem innermost_start : s.Innermost n n before before := by
  refine .inl ⟨rfl, ?_⟩
  intro o hle haround
  exact Nat.not_lt.2 hle haround.1

theorem not_around (ht : s.get? o = some t) (hopens : t.opensBracket = false) : ¬s.Around i o := by
  rintro ⟨-, a, j, ha, hopens', -, -⟩
  rw [ht] at ha
  cases ha
  rw [hopens] at hopens'
  cases hopens'

theorem not_around_of_related {j : Nat} (ht : s.get? o = some t) (hrelated : t.related = some j)
    (hlt : j < i) : ¬s.Around i o := by
  rintro ⟨-, a, j', ha, -, hrelated', hle⟩
  rw [ht] at ha
  cases ha
  rw [hrelated] at hrelated'
  cases hrelated'
  omega

theorem Innermost.of_succ (h : s.Innermost (n + 1) i before found) (hn : ¬s.Around i n) :
    s.Innermost n i before found := by
  rcases h with ⟨hsame, hnone⟩ | ⟨o, hfound, hle, haround, hlast⟩
  · refine .inl ⟨hsame, ?_⟩
    intro o hle
    rcases Nat.eq_or_lt_of_le hle with rfl | hlt
    · exact hn
    · exact hnone o hlt
  · exact .inr ⟨o, hfound, Nat.le_of_succ_le hle, haround, hlast⟩

theorem Innermost.of_opener (h : s.Innermost (n + 1) i (.found n) found) (hn : s.Around i n) :
    s.Innermost n i before found := by
  rcases h with ⟨rfl, hnone⟩ | ⟨o, hfound, hle, haround, hlast⟩
  · refine .inr ⟨n, rfl, Nat.le_refl n, hn, ?_⟩
    intro o' haround'
    apply Nat.le_of_not_lt
    intro hlt
    exact hnone o' hlt haround'
  · exact .inr ⟨o, hfound, Nat.le_of_succ_le hle, haround, hlast⟩

end TokenStream

namespace Nested

variable {zone : Zone} {n i : Nat} {ts us vs : List Token} {s : TokenStream}
  {before found : BracketSearch}

section

variable (h : Nested zone n ts) (hs : ∀ k t, ts[k]? = some t → s.get? (n + k) = some t)
include h hs

theorem not_around (hi : n + ts.length ≤ i) {o : Nat} (hle : n ≤ o) (hlt : o < n + ts.length) :
    ¬s.Around i o := by
  obtain ⟨k, rfl⟩ := Nat.exists_eq_add_of_le hle
  have hk : k < ts.length := Nat.lt_of_add_lt_add_left hlt
  have hget := hs k ts[k] (List.getElem?_eq_getElem hk)
  cases hrelated : ts[k].related with
  | none =>
    rintro ⟨-, a, j, ha, -, hj, -⟩
    rw [hget] at ha
    cases ha
    rw [hrelated] at hj
    cases hj
  | some j =>
    have hj := (h.related_lt (List.getElem_mem hk) hrelated).2
    exact TokenStream.not_around_of_related hget hrelated (Nat.lt_of_lt_of_le hj hi)

theorem innermost_passed : s.Innermost n (n + ts.length) before before := by
  refine .inl ⟨rfl, ?_⟩
  intro o hle haround
  exact h.not_around hs (Nat.le_refl _) hle haround.1 haround

theorem innermost_end (hfound : s.Innermost n (n + ts.length) before found) : found = before := by
  rcases hfound with ⟨hsame, -⟩ | ⟨o, -, hle, haround, -⟩
  · exact hsame
  · exact absurd haround (h.not_around hs (Nat.le_refl _) hle haround.1)

end

theorem length_enclosed (t t' : Token) :
    n + (t :: (ts ++ [t'])).length = n + 1 + ts.length + 1 := by
  simp only [List.length_cons, List.length_append, List.length_nil]
  omega

/-- At every place among nested tokens, the walk ends at the innermost bracket. -/
theorem innermost (h : Nested zone n ts) (hs : ∀ k t, ts[k]? = some t → s.get? (n + k) = some t)
    (hbefore : s.Enclosed n before) (hsplit : ts = us ++ vs) :
    ∃ found, s.Enclosed (n + us.length) found ∧ s.Innermost n (n + us.length) before found := by
  induction h generalizing before us vs with
  | nil =>
    obtain ⟨rfl, -⟩ := List.append_eq_nil_iff.1 hsplit.symm
    exact ⟨before, hbefore, TokenStream.innermost_start⟩
  | @token zone n t _ hno _ =>
    have ht := hs 0 t rfl
    rcases List.append_eq_singleton_iff.1 hsplit.symm with ⟨rfl, -⟩ | ⟨rfl, -⟩
    · exact ⟨before, hbefore, TokenStream.innermost_start⟩
    · refine ⟨before, .other ht hno.eq_false.1 hno.eq_false.2 hbefore, ?_⟩
      exact TokenStream.innermost_start.of_succ (TokenStream.not_around ht hno.eq_false.1)
  | @append zone n ts₁ ts₂ h₁ h₂ ih₁ ih₂ =>
    obtain ⟨hs₁, hs₂⟩ := get?_append hs
    rcases List.append_eq_append_iff.1 hsplit with ⟨w, rfl, rfl⟩ | ⟨w, rfl, rfl⟩
    · -- The first tokens are passed over, and none of their brackets is around a place behind them.
      obtain ⟨found₁, henclosed₁, hfound₁⟩ := ih₁ hs₁ hbefore (List.append_nil ts₁).symm
      obtain rfl := h₁.innermost_end hs₁ hfound₁
      obtain ⟨found, henclosed, hfound⟩ := ih₂ hs₂ henclosed₁ rfl
      rw [List.length_append, ← Nat.add_assoc]
      refine ⟨found, henclosed, ?_⟩
      rcases hfound with ⟨hsame, hnone⟩ | ⟨o, hfound, hle, haround, hlast⟩
      · refine .inl ⟨hsame, ?_⟩
        intro o hle
        by_cases ho : o < n + ts₁.length
        · exact h₁.not_around hs₁ (Nat.le_add_right _ _) hle ho
        · exact hnone o (Nat.le_of_not_lt ho)
      · exact .inr ⟨o, hfound, Nat.le_trans (Nat.le_add_right _ _) hle, haround, hlast⟩
    · exact ih₁ hs₁ hbefore rfl
  | @enclose outer inner n t t' ts henclose hrelated hrelated' hts ih =>
    have hwhole := Nested.enclose henclose hrelated hrelated' hts
    obtain ⟨ht, hinner, ht'⟩ := get?_enclosed hs
    obtain ⟨hopens, hcloses⟩ := (Token.noBracket_of_kind henclose.kind_ne.1).eq_false
    obtain ⟨hopens', hcloses'⟩ := (Token.noBracket_of_kind henclose.kind_ne.2).eq_false
    have hfirst : s.Enclosed (n + 1) before := .other ht hopens hcloses hbefore
    rcases split_enclosed hsplit with rfl | ⟨w, x, rfl, rfl⟩ | rfl
    · exact ⟨before, hbefore, TokenStream.innermost_start⟩
    · rw [List.length_cons, Nat.add_comm w.length, ← Nat.add_assoc]
      obtain ⟨found, henclosed, hfound⟩ := ih hinner hfirst rfl
      exact ⟨found, henclosed, hfound.of_succ (TokenStream.not_around ht hopens)⟩
    · obtain ⟨found, henclosed, hfound⟩ := ih hinner hfirst (List.append_nil ts).symm
      obtain rfl := hts.innermost_end hinner hfound
      refine ⟨found, ?_, hwhole.innermost_passed hs⟩
      rw [length_enclosed]
      exact .other ht' hopens' hcloses' henclosed
  | @bracket n t t' ts shape hopens hcloses hrelated hrelated' hts ih =>
    have hwhole := Nested.bracket hopens hcloses hrelated hrelated' hts
    obtain ⟨ht, hinner, ht'⟩ := get?_enclosed hs
    have hbracket : t.opensBracket = true := Token.opensBracket_iff.2 ⟨shape, hopens⟩
    rcases split_enclosed hsplit with rfl | ⟨w, x, rfl, rfl⟩ | rfl
    · exact ⟨before, hbefore, TokenStream.innermost_start⟩
    · -- The pair is still open, so its bracket is found unless there is another one behind it.
      rw [List.length_cons, Nat.add_comm w.length, ← Nat.add_assoc]
      obtain ⟨found, henclosed, hfound⟩ := ih hinner (.opener ht hbracket) rfl
      refine ⟨found, henclosed, hfound.of_opener ⟨by omega, t, _, ht, hbracket, hrelated, ?_⟩⟩
      rw [List.length_append]
      omega
    · -- The pair is closed, and the walk jumps over it.
      refine ⟨before, ?_, hwhole.innermost_passed hs⟩
      rw [length_enclosed]
      exact .closer ht' hcloses.opensBracket (Token.closesBracket_iff.2 ⟨shape, hcloses⟩) hrelated'
        (by omega) hbefore

theorem innermost_stream {eof : Token} (h : Nested .template 0 ts)
    (hts : s.tokens.toList = ts ++ [eof]) (heof : eof.kind = .eof) (i : Nat) :
    ∃ found, s.Enclosed (min i s.size) found ∧ s.Innermost 0 i .absent found := by
  have hsize : s.size = ts.length + 1 := by
    rw [TokenStream.size, ← Array.length_toList, hts, List.length_append, List.length_singleton]
  have hs := get?_init hts
  by_cases hi : i ≤ ts.length
  · have hlength : min i s.size = 0 + (ts.take i).length := by
      rw [List.length_take]
      omega
    have hplace : i = 0 + (ts.take i).length := by
      rw [List.length_take]
      omega
    obtain ⟨found, henclosed, hfound⟩ := h.innermost hs .start (List.take_append_drop i ts).symm
    rw [← hplace] at hfound
    rw [← hlength] at henclosed
    exact ⟨found, henclosed, hfound⟩
  · have hlast : s.get? ts.length = some eof := TokenStream.get?_of_split hts
    have hkind : eof.kind ≠ .punctuation := by
      rw [heof]
      decide
    obtain ⟨hopens, hcloses⟩ := (Token.noBracket_of_kind hkind).eq_false
    obtain ⟨found, henclosed, hfound⟩ := h.innermost hs .start (List.append_nil ts).symm
    obtain rfl := h.innermost_end hs hfound
    rw [Nat.zero_add] at henclosed
    refine ⟨_, ?_, .inl ⟨rfl, ?_⟩⟩
    · rw [show min i s.size = ts.length + 1 by omega]
      exact .other hlast hopens hcloses henclosed
    · intro o _ haround
      obtain ⟨-, a, -, ha, -⟩ := id haround
      have ho : o < s.size := (Array.getElem?_eq_some_iff.1 ha).1
      by_cases hlt : o < ts.length
      · exact h.not_around hs (by omega) (Nat.zero_le o) (by omega) haround
      · rw [show o = ts.length by omega] at haround
        exact TokenStream.not_around hlast hopens haround

end Nested

/-- **The search finds the innermost bracket.** In a template it ends after no more steps than
    there are tokens, at the last bracket that was opened before the place and is closed there or
    later.  It finds none exactly if there is none, as past the end of the template. -/
theorem tokenize_enclosingBracket {table : OperatorTable} {source : List Char} {t : Template}
    (h : tokenize table source = .ok t) (i : Nat) :
    (∀ steps, t.stream.size ≤ steps →
      t.stream.enclosingFrom steps (min i t.stream.size) = t.stream.enclosingBracket i) ∧
    ((∃ o, t.stream.enclosingBracket i = .found o ∧ t.stream.Around i o ∧
        ∀ o', t.stream.Around i o' → o' ≤ o) ∨
      t.stream.enclosingBracket i = .absent ∧ ∀ o, ¬t.stream.Around i o) := by
  obtain ⟨ts, eof, hts, hnested, heof, -⟩ := tokenize_nested h
  obtain ⟨found, henclosed, hfound⟩ := hnested.innermost_stream hts heof i
  have hwalk : ∀ steps, t.stream.size ≤ steps →
      t.stream.enclosingFrom steps (min i t.stream.size) = found := by
    intro steps hsteps
    apply henclosed.enclosingFrom
    omega
  have hsearch : t.stream.enclosingBracket i = found := hwalk _ (Nat.le_succ _)
  rw [hsearch]
  refine ⟨hwalk, ?_⟩
  rcases hfound with ⟨rfl, hnone⟩ | ⟨o, hfound, -, haround, hlast⟩
  · exact .inr ⟨rfl, fun o => hnone o (Nat.zero_le o)⟩
  · exact .inl ⟨o, hfound, haround, hlast⟩

/-- A colon behind a call in square brackets, and a place past the end. -/
theorem tokenize_enclosingBracket_slice :
    ∃ t, tokenize OperatorTable.default "\x7b\x7b a[f(1):2] \x7d\x7d".toList = .ok t ∧
      t.stream.Around 8 3 ∧ (∀ o', t.stream.Around 8 o' → o' ≤ 3) ∧ ∀ o, ¬t.stream.Around 20 o := by
  obtain ⟨t, ht⟩ := exists_ok_of_isOk (x := tokenize OperatorTable.default
    "\x7b\x7b a[f(1):2] \x7d\x7d".toList) (by decide +kernel)
  have hsearch : (tokenize OperatorTable.default "\x7b\x7b a[f(1):2] \x7d\x7d".toList).toOption.map
      (fun t => (t.stream.enclosingBracket 8, t.stream.enclosingBracket 20)) =
        some (.found 3, .absent) := by
    decide +kernel
  rw [ht] at hsearch
  obtain ⟨hcolon, hpast⟩ := Prod.mk.inj (Option.some.inj hsearch)
  rcases (tokenize_enclosingBracket ht 8).2 with ⟨o, ho, haround, hlast⟩ | ⟨habsent, -⟩
  · rcases (tokenize_enclosingBracket ht 20).2 with ⟨o', ho', -⟩ | ⟨-, hnone⟩
    · rw [hpast] at ho'
      cases ho'
    · rw [hcolon] at ho
      cases ho
      exact ⟨t, ht, haround, hlast, hnone⟩
  · rw [hcolon] at habsent
    cases habsent

end TwigStyle
