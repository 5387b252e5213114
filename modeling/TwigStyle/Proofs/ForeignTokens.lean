import TwigStyle.Proofs.Enclosed

/-!
# Tokens of other streams

Adding a token to a stream keeps the partner that the token had where it was taken from, and the
search for the bracket around a place goes wherever the partner of a closing bracket leads.  So the
search in a stream that was put together token by token is as good as these links are.

A link that leads to the place of its token or further back is harmless: every turn of the walk then
leads further back (`LinksBack.enclosingFrom`).  One that leads forward is not.  When its token has
just been added, nothing stands behind it, so the walk comes back to the token for ever or leaves
the stream (`not_answers_last`).  Along a row of calls the search therefore answers all the time
exactly if no link that comes in leads forward (`afterCalls_answers_iff`).
-/

namespace TwigStyle

namespace TokenStream

variable {s : TokenStream} {t : Token} {i k n : Nat}

/-- What can be asked of a stream that changes it. -/
inductive Call where
  /-- Add a token, wherever it was taken from. -/
  | add (t : Token)
  | freeze

/-- The stream after a call; one that is refused changes nothing. -/
def call (s : TokenStream) : Call → TokenStream
  | .add t => (s.add t).toOption.getD s
  | .freeze => s.freeze

/-- The stream after some calls. -/
def afterCalls (s : TokenStream) (calls : List Call) : TokenStream := calls.foldl call s

/-- The links of closing brackets lead back, or to the bracket itself. -/
def LinksBack (s : TokenStream) : Prop :=
  ∀ j < s.size, ∀ t ∈ s.get? j, t.closesBracket = true → ∀ k ∈ t.related, k ≤ j

instance (s : TokenStream) : Decidable s.LinksBack :=
  inferInstanceAs (Decidable (∀ j < s.size, ∀ t ∈ s.get? j, _ → ∀ k ∈ t.related, k ≤ j))

/-- The search for the bracket around a place ends inside of the stream, with no more steps than
    there are tokens, and finds none or one in front of the place. -/
structure Answers (s : TokenStream) (i : Nat) : Prop where
  ends : ∀ steps, s.size ≤ steps → s.enclosingFrom steps (min i s.size) = s.enclosingBracket i
  found : s.enclosingBracket i = .absent ∨ ∃ j < i, s.enclosingBracket i = .found j

/-! ### Walking -/

theorem enclosingFrom_closer (ht : s.get? i = some t) (hcloses : t.closesBracket = true)
    (steps : Nat) : s.enclosingFrom (steps + 1) (i + 1) =
      s.enclosingFrom steps (t.related.getD i) := by
  obtain ⟨shape, hshape⟩ := Token.closesBracket_iff.1 hcloses
  unfold get? at ht
  simp [enclosingFrom, ht, hshape.opensBracket, hcloses]

/-- A walk along links that lead back ends, the sooner the fewer tokens there are in front. -/
theorem LinksBack.enclosingFrom (h : s.LinksBack) (hi : i ≤ s.size) :
    ∃ found, (found = .absent ∨ ∃ j < i, found = .found j) ∧
      ∀ steps, i ≤ steps → s.enclosingFrom steps i = found := by
  induction i using Nat.strongRecOn with
  | ind i ih =>
    cases i with
    | zero =>
      refine ⟨.absent, .inl rfl, fun steps _ => ?_⟩
      cases steps <;> rfl
    | succ i =>
      obtain ⟨t, ht⟩ := exists_get? hi
      -- A turn that leads from here to an earlier place ends as the walk from there does.
      have hturn : ∀ k ≤ i, (∀ steps, s.enclosingFrom (steps + 1) (i + 1) =
          s.enclosingFrom steps k) → ∃ found, (found = .absent ∨ ∃ j < i + 1, found = .found j) ∧
            ∀ steps, i + 1 ≤ steps → s.enclosingFrom steps (i + 1) = found := by
        intro k hk hnext
        obtain ⟨found, hfound, hends⟩ := ih k (by omega) (by omega)
        refine ⟨found, hfound.imp_right fun ⟨j, hj, heq⟩ => ⟨j, by omega, heq⟩, ?_⟩
        intro steps hsteps
        obtain ⟨steps, rfl⟩ := Nat.exists_eq_add_one_of_ne_zero (n := steps) (by omega)
        rw [hnext, hends steps (by omega)]
      by_cases hcloses : t.closesBracket = true
      · refine hturn (t.related.getD i) ?_ (enclosingFrom_closer ht hcloses)
        cases hrelated : t.related with
        | none => exact Nat.le_refl i
        | some k => exact h i hi t ht hcloses k hrelated
      · have hget : s.tokens[i]? = some t := ht
        by_cases hopens : t.opensBracket = true
        · refine ⟨.found i, .inr ⟨i, Nat.lt_succ_self i, rfl⟩, fun steps hsteps => ?_⟩
          obtain ⟨steps, rfl⟩ := Nat.exists_eq_add_one_of_ne_zero (n := steps) (by omega)
          simp [TokenStream.enclosingFrom, hget, hopens]
        · refine hturn i (Nat.le_refl i) fun steps => ?_
          simp [TokenStream.enclosingFrom, hget, hopens, hcloses]

theorem LinksBack.answers (h : s.LinksBack) (i : Nat) : s.Answers i := by
  obtain ⟨found, hfound, hends⟩ := h.enclosingFrom (Nat.min_le_right i s.size)
  have hsearch : s.enclosingBracket i = found := hends _ (by omega)
  refine ⟨fun steps hsteps => ?_, ?_⟩
  · rw [hsearch, hends steps (by omega)]
  · rw [hsearch]
    exact hfound.imp_right fun ⟨j, hj, heq⟩ => ⟨j, by omega, heq⟩

theorem enclosingFrom_circle (ht : s.get? i = some t) (hcloses : t.closesBracket = true)
    (hrelated : t.related = some (i + 1)) (steps : Nat) :
    s.enclosingFrom steps (i + 1) = .endless := by
  induction steps with
  | zero => rfl
  | succ steps ih => rw [enclosingFrom_closer ht hcloses, hrelated, Option.getD_some, ih]

/-- Behind a last token whose link leads forward the search does not answer. -/
theorem not_answers_last (ht : s.get? i = some t) (hlast : s.size = i + 1)
    (hcloses : t.closesBracket = true) (hrelated : t.related = some k) (hk : i < k) :
    ¬s.Answers (i + 1) := by
  intro h
  have hfound := h.found
  rw [← h.ends (s.size + 1) (Nat.le_succ _), hlast, Nat.min_self] at hfound
  have hsearch : s.enclosingFrom (i + 1 + 1) (i + 1) = .endless ∨
      s.enclosingFrom (i + 1 + 1) (i + 1) = .outside (k - 1) := by
    rcases Nat.eq_or_lt_of_le hk with rfl | hlt
    · exact .inl (enclosingFrom_circle ht hcloses hrelated _)
    · obtain ⟨k, rfl⟩ := Nat.exists_eq_add_one_of_ne_zero (n := k) (by omega)
      have hnone : s.tokens[k]? = none :=
        Array.getElem?_eq_none (show s.size ≤ k by omega)
      rw [enclosingFrom_closer ht hcloses, hrelated]
      simp [enclosingFrom, hnone]
  rcases hsearch with hsearch | hsearch <;> rw [hsearch] at hfound <;> simp at hfound

/-! ### Calls -/

theorem call_extends (s : TokenStream) (c : Call) :
    s.size ≤ (s.call c).size ∧ (s.call c).size ≤ s.size + 1 ∧
      ∀ i < s.size, (s.call c).get? i = s.get? i := by
  cases c with
  | freeze => exact ⟨Nat.le_refl _, Nat.le_succ _, fun i _ => rfl⟩
  | add t =>
    simp only [call, add]
    split
    · exact ⟨Nat.le_refl _, Nat.le_succ _, fun i _ => rfl⟩
    · split
      · exact ⟨Nat.le_refl _, Nat.le_succ _, fun i _ => rfl⟩
      · have hsize : (s.tokens.push t).size = s.size + 1 := Array.size_push t
        exact ⟨Nat.le_trans (Nat.le_succ _) (Nat.le_of_eq hsize.symm), Nat.le_of_eq hsize,
          fun i hi => Array.getElem?_push.trans (if_neg (Nat.ne_of_lt hi))⟩

theorem LinksBack.of_call {c : Call} (h : (s.call c).LinksBack) : s.LinksBack := by
  intro j hj t ht
  obtain ⟨hle, -, hget⟩ := s.call_extends c
  exact h j (Nat.lt_of_lt_of_le hj hle) t (by rwa [hget j hj])

theorem LinksBack.of_afterCalls {calls : List Call} (h : (s.afterCalls calls).LinksBack) :
    s.LinksBack := by
  induction calls generalizing s with
  | nil => exact h
  | cons c calls ih => exact (ih h).of_call

/-- A call after which every search answers brought in no link forward. -/
theorem LinksBack.call {c : Call} (h : s.LinksBack) (hanswers : ∀ i, (s.call c).Answers i) :
    (s.call c).LinksBack := by
  intro j hj t ht hcloses k hk
  obtain ⟨-, hle, hget⟩ := s.call_extends c
  by_cases hlt : j < s.size
  · rw [hget j hlt] at ht
    exact h j hlt t ht hcloses k hk
  · refine Nat.not_lt.1 fun hforward => ?_
    exact not_answers_last ht (by omega) hcloses hk hforward (hanswers _)

theorem LinksBack.afterCalls {calls : List Call} (h : s.LinksBack)
    (hanswers : ∀ before, before <+: calls → ∀ i, (s.afterCalls before).Answers i) :
    (s.afterCalls calls).LinksBack := by
  induction calls generalizing s with
  | nil => exact h
  | cons c calls ih =>
    refine ih (h.call (hanswers [c] ⟨calls, rfl⟩)) fun before hbefore => ?_
    exact hanswers (c :: before) (List.cons_prefix_cons.2 ⟨rfl, hbefore⟩)

theorem linksBack_tokenize {table : OperatorTable} {source : List Char} {template : Template}
    (h : tokenize table source = .ok template) : template.stream.LinksBack := by
  intro j hj t ht hcloses k hk
  obtain ⟨ts, eof, hts, hnested, heof, -⟩ := tokenize_nested h
  obtain ⟨shape, hshape⟩ := Token.closesBracket_iff.1 hcloses
  obtain ⟨us, vs, rfl, rfl⟩ := Nested.get?_bracket hts heof ht hshape.1
  obtain ⟨ws, t', xs, rfl, -, hrelated, -⟩ := hnested.closer hshape
  obtain rfl : 0 + ws.length = k := Option.some.inj (hrelated.symm.trans hk)
  simp only [List.length_append]
  omega

/-- **The search answers as long as no closing bracket is linked to a place behind it.** Start from
    an empty stream or from a template, and add tokens from anywhere.  At all times and at every
    place the search ends within the stream, with no bracket or one in front of the place, exactly
    if all links that came in lead back. -/
theorem afterCalls_answers_iff (hs : s = {} ∨ ∃ table source template,
      tokenize table source = .ok template ∧ s = template.stream) (calls : List Call) :
    (∀ before, before <+: calls → ∀ i, (s.afterCalls before).Answers i) ↔
      (s.afterCalls calls).LinksBack := by
  constructor
  · apply LinksBack.afterCalls
    rcases hs with rfl | ⟨table, source, template, htemplate, rfl⟩
    · exact fun j hj => absurd hj (Nat.not_lt_zero j)
    · exact linksBack_tokenize htemplate
  · rintro h before ⟨rest, rfl⟩ i
    rw [afterCalls, List.foldl_append] at h
    exact h.of_afterCalls.answers i

/-- The two brackets of one template, added in their order and then linked back to the place of the
    closing one. -/
theorem afterCalls_answers_pair :
    let opener : Token := ⟨.punctuation, ['('], Position.start, some 1⟩
    let closer : Token := ⟨.punctuation, [')'], Position.start, some 0⟩
    ∀ before, before <+: [.add opener, .add closer, .freeze] →
      ∀ i, (({} : TokenStream).afterCalls before).Answers i := by
  intro opener closer
  exact (afterCalls_answers_iff (.inl rfl) _).2 (by decide)

/-- The brackets of `(a)`, which stand at 2 and 4 in their template, put at the front of an empty
    stream: the closing one first, and the search behind it finds the bracket at that very place;
    alone, and the search reads outside of the stream; twice, and it does not end. -/
theorem afterCalls_forward :
    ∃ t opener closer, tokenize OperatorTable.default "\x7b\x7b (a) \x7d\x7d".toList = .ok t ∧
      t.stream.get? 2 = some opener ∧ t.stream.get? 4 = some closer ∧
      (({} : TokenStream).afterCalls [.add closer, .add opener]).enclosingBracket 1 = .found 1 ∧
      (({} : TokenStream).afterCalls [.add closer]).enclosingBracket 1 = .outside 1 ∧
      ∀ steps, (({} : TokenStream).afterCalls
        [.add closer, .add closer]).enclosingFrom steps 2 = .endless := by
  obtain ⟨t, ht⟩ := exists_ok_of_isOk (x := tokenize OperatorTable.default
    "\x7b\x7b (a) \x7d\x7d".toList) (by decide +kernel)
  have hget : (tokenize OperatorTable.default "\x7b\x7b (a) \x7d\x7d".toList).toOption.map
      (fun t => (t.stream.get? 2, t.stream.get? 4)) =
        some (some ⟨.punctuation, ['('], ⟨1, 4⟩, some 4⟩,
          some ⟨.punctuation, [')'], ⟨1, 6⟩, some 2⟩) := by
    decide +kernel
  rw [ht] at hget
  obtain ⟨hopener, hcloser⟩ := Prod.mk.inj (Option.some.inj hget)
  refine ⟨t, _, _, ht, hopener, hcloser, by decide, by decide, fun steps => ?_⟩
  exact enclosingFrom_circle (i := 1) rfl (by decide) rfl steps

end TokenStream

end TwigStyle
