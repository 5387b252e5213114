import TwigStyle.Proofs.Brackets
import TwigStyle.Proofs.Wanted

/-!
# What stands around a token

Three facts about the tokens of a template that rules look at, read off the grammar of nested tokens.
The bracket around a token is the last one that the lexemes before it leave open
(`inSquareBrackets_eq`), so it does not depend on the layout.  The layout of comments stands between
lexemes of comments only (`Nested.sorted`).  And the last lexeme of a template that is no layout is
text or the end of a construct (`Nested.last`).
-/

namespace TwigStyle

variable {t : Token}

/-! ### Brackets -/

/-- The lexeme as a token, wherever it stands. -/
def Lexeme.token (l : Lexeme) : Token := { kind := l.1, value := l.2, position := Position.start }

/-- The brackets that are open after some lexemes, in both rows the last one first. -/
def unclosed : List Lexeme → List Lexeme
  | [] => []
  | l :: before =>
    if (Lexeme.token l).opensBracket then l :: unclosed before
    else if (Lexeme.token l).closesBracket then (unclosed before).tail
    else unclosed before

namespace TokenStream

variable {s : TokenStream} {i : Nat} {t : Token} {before : List Lexeme}

/-- Where the walk from a place to the bracket around it ends. -/
inductive Enclosed (s : TokenStream) : Nat → BracketSearch → Prop
  | start : Enclosed s 0 .absent
  | opener {i : Nat} {t : Token} (ht : s.get? i = some t) (hopens : t.opensBracket = true) :
    Enclosed s (i + 1) (.found i)
  | closer {i j : Nat} {t : Token} {found : BracketSearch} (ht : s.get? i = some t)
      (hopens : t.opensBracket = false) (hcloses : t.closesBracket = true)
      (hrelated : t.related = some j) (hle : j ≤ i) (h : Enclosed s j found) :
    Enclosed s (i + 1) found
  | other {i : Nat} {t : Token} {found : BracketSearch} (ht : s.get? i = some t)
      (hopens : t.opensBracket = false) (hcloses : t.closesBracket = false)
      (h : Enclosed s i found) :
    Enclosed s (i + 1) found

theorem Enclosed.enclosingFrom {found : BracketSearch} (h : s.Enclosed i found) {steps : Nat}
    (hsteps : i ≤ steps) : s.enclosingFrom steps i = found := by
  induction h generalizing steps with
  | start => cases steps <;> rfl
  | opener ht hopens =>
    obtain ⟨steps, rfl⟩ : ∃ n, steps = n + 1 := ⟨steps - 1, by omega⟩
    unfold get? at ht
    simp [TokenStream.enclosingFrom, ht, hopens]
  | closer ht hopens hcloses hrelated hle _ ih =>
    obtain ⟨steps, rfl⟩ : ∃ n, steps = n + 1 := ⟨steps - 1, by omega⟩
    have hjump := ih (Nat.le_trans hle (Nat.le_of_succ_le_succ hsteps))
    unfold get? at ht
    simp [TokenStream.enclosingFrom, ht, hopens, hcloses, hrelated, hjump]
  | other ht hopens hcloses _ ih =>
    obtain ⟨steps, rfl⟩ : ∃ n, steps = n + 1 := ⟨steps - 1, by omega⟩
    have hwalk := ih (Nat.le_of_succ_le_succ hsteps)
    unfold get? at ht
    simp [TokenStream.enclosingFrom, ht, hopens, hcloses, hwalk]

/-- The walk ends at the bracket that the lexemes leave open. -/
def Leaves (s : TokenStream) (i : Nat) (before : List Lexeme) : Prop :=
  (s.Enclosed i .absent ∧ unclosed before = []) ∨
    ∃ j t, s.Enclosed i (.found j) ∧ s.get? j = some t ∧ (unclosed before).head? = some t.lexeme

theorem Leaves.other (h : s.Leaves i before) (ht : s.get? i = some t)
    (hopens : t.opensBracket = false) (hcloses : t.closesBracket = false) :
    s.Leaves (i + 1) (t.lexeme :: before) := by
  have hsame : unclosed (t.lexeme :: before) = unclosed before := by
    rw [unclosed, if_neg (by rw [Bool.not_eq_true]; exact hopens),
      if_neg (by rw [Bool.not_eq_true]; exact hcloses)]
  unfold Leaves
  rw [hsame]
  rcases h with ⟨h, hnil⟩ | ⟨j, t', h, ht', hhead⟩
  · exact .inl ⟨.other ht hopens hcloses h, hnil⟩
  · exact .inr ⟨j, t', .other ht hopens hcloses h, ht', hhead⟩

theorem leaves_opener (ht : s.get? i = some t) (hopens : t.opensBracket = true) :
    s.Leaves (i + 1) (t.lexeme :: before) := by
  refine .inr ⟨i, t, .opener ht hopens, ht, ?_⟩
  have hopens' : (Lexeme.token t.lexeme).opensBracket = true := hopens
  rw [unclosed, if_pos hopens']
  rfl

theorem Leaves.closer {j : Nat} {before' : List Lexeme} (h : s.Leaves j before)
    (ht : s.get? i = some t) (hopens : t.opensBracket = false) (hcloses : t.closesBracket = true)
    (hrelated : t.related = some j) (hle : j ≤ i) (hsame : unclosed before' = unclosed before) :
    s.Leaves (i + 1) before' := by
  unfold Leaves
  rw [hsame]
  rcases h with ⟨h, hnil⟩ | ⟨k, t', h, ht', hhead⟩
  · exact .inl ⟨.closer ht hopens hcloses hrelated hle h, hnil⟩
  · exact .inr ⟨k, t', .closer ht hopens hcloses hrelated hle h, ht', hhead⟩

end TokenStream

theorem Token.NoBracket.eq_false (h : t.NoBracket) :
    t.opensBracket = false ∧ t.closesBracket = false := by
  constructor
  · rw [Bool.eq_false_iff]
    intro hopens
    obtain ⟨shape, hopens⟩ := Token.opensBracket_iff.1 hopens
    exact (h shape).1 hopens
  · rw [Bool.eq_false_iff]
    intro hcloses
    obtain ⟨shape, hcloses⟩ := Token.closesBracket_iff.1 hcloses
    exact (h shape).2 hcloses

theorem Token.Closes.opensBracket {shape : BracketShape} (h : t.Closes shape) :
    t.opensBracket = false := by
  rw [Bool.eq_false_iff]
  intro hopens
  obtain ⟨shape', hopens⟩ := Token.opensBracket_iff.1 hopens
  exact hopens.not_closes h

namespace Nested

variable {zone : Zone} {n : Nat} {ts us vs : List Token} {s : TokenStream} {before : List Lexeme}
  {t t' : Token}

theorem unclosed_eq (h : Nested zone n ts) (before : List Lexeme) :
    unclosed ((ts.map Token.lexeme).reverse ++ before) = unclosed before := by
  have hother : ∀ {t : Token} (before : List Lexeme), t.opensBracket = false →
      t.closesBracket = false → unclosed (t.lexeme :: before) = unclosed before := by
    intro t before hopens hcloses
    rw [unclosed, if_neg (by rw [Bool.not_eq_true]; exact hopens),
      if_neg (by rw [Bool.not_eq_true]; exact hcloses)]
  induction h generalizing before with
  | nil => rfl
  | token _ hno _ => exact hother before hno.eq_false.1 hno.eq_false.2
  | append _ _ ih₁ ih₂ =>
    rw [List.map_append, List.reverse_append, List.append_assoc, ih₂, ih₁]
  | @enclose outer inner n t t' ts henclose _ _ _ ih =>
    obtain ⟨h₁, h₂⟩ := (Token.noBracket_of_kind henclose.kind_ne.1).eq_false
    obtain ⟨h₁', h₂'⟩ := (Token.noBracket_of_kind henclose.kind_ne.2).eq_false
    simp only [List.map_cons, List.map_append, List.map_nil, List.reverse_cons, List.reverse_append,
      List.reverse_nil, List.nil_append, List.append_assoc, List.cons_append]
    rw [hother _ h₁' h₂', ih, hother _ h₁ h₂]
  | @bracket n t t' ts shape hopens hcloses _ _ _ ih =>
    have hopens' : (Lexeme.token t.lexeme).opensBracket = true := Token.opensBracket_iff.2 ⟨_, hopens⟩
    have hclosesNot : ¬(Lexeme.token t'.lexeme).opensBracket = true := by
      rw [Bool.not_eq_true]
      exact hcloses.opensBracket
    have hcloses' : (Lexeme.token t'.lexeme).closesBracket = true :=
      Token.closesBracket_iff.2 ⟨_, hcloses⟩
    simp only [List.map_cons, List.map_append, List.map_nil, List.reverse_cons, List.reverse_append,
      List.reverse_nil, List.nil_append, List.append_assoc, List.cons_append]
    rw [unclosed, if_neg hclosesNot, if_pos hcloses', ih, unclosed, if_pos hopens', List.tail_cons]

theorem split_enclosed (h : t :: (ts ++ [t']) = us ++ vs) :
    us = [] ∨ (∃ w x, us = t :: w ∧ ts = w ++ x) ∨ us = t :: (ts ++ [t']) := by
  cases us with
  | nil => exact .inl rfl
  | cons a us =>
    obtain ⟨rfl, htail⟩ := List.cons.inj h
    rcases List.append_eq_append_iff.1 htail with ⟨w, rfl, hw⟩ | ⟨w, rfl, -⟩
    · rcases List.append_eq_singleton_iff.1 hw.symm with ⟨rfl, -⟩ | ⟨rfl, -⟩
      · exact .inr (.inl ⟨_, [], rfl, by simp⟩)
      · exact .inr (.inr rfl)
    · exact .inr (.inl ⟨us, w, rfl, rfl⟩)

theorem get?_append (hs : ∀ k a, (us ++ vs)[k]? = some a → s.get? (n + k) = some a) :
    (∀ k a, us[k]? = some a → s.get? (n + k) = some a) ∧
      ∀ k a, vs[k]? = some a → s.get? (n + us.length + k) = some a := by
  constructor
  · intro k a hk
    refine hs k a ?_
    rw [List.getElem?_append_left (List.getElem?_eq_some_iff.1 hk).1, hk]
  · intro k a hk
    rw [Nat.add_assoc]
    refine hs _ a ?_
    rw [List.getElem?_append_right (Nat.le_add_right _ _), Nat.add_sub_cancel_left, hk]

theorem get?_init (hts : s.tokens.toList = ts ++ us) :
    ∀ k a, ts[k]? = some a → s.get? (0 + k) = some a := by
  have hwhole : ∀ k a, (ts ++ us)[k]? = some a → s.get? (0 + k) = some a := by
    intro k a hk
    rw [Nat.zero_add, TokenStream.get?, ← Array.getElem?_toList, hts, hk]
  exact (get?_append hwhole).1

theorem get?_enclosed (hs : ∀ k a, (t :: (ts ++ [t']))[k]? = some a → s.get? (n + k) = some a) :
    s.get? n = some t ∧ (∀ k a, ts[k]? = some a → s.get? (n + 1 + k) = some a) ∧
      s.get? (n + 1 + ts.length) = some t' := by
  refine ⟨hs 0 t rfl, ?_, ?_⟩
  · intro k a hk
    rw [Nat.add_assoc, Nat.add_comm 1]
    refine hs _ a ?_
    rw [List.getElem?_cons_succ, List.getElem?_append_left (List.getElem?_eq_some_iff.1 hk).1, hk]
  · rw [Nat.add_assoc, Nat.add_comm 1]
    refine hs _ t' ?_
    rw [List.getElem?_cons_succ, List.getElem?_concat_length]

/-- At every place among nested tokens, the walk ends at the bracket that is left open. -/
theorem leaves (h : Nested zone n ts) (hs : ∀ k t, ts[k]? = some t → s.get? (n + k) = some t)
    (hbefore : s.Leaves n before) (hsplit : ts = us ++ vs) :
    s.Leaves (n + us.length) ((us.map Token.lexeme).reverse ++ before) := by
  induction h generalizing before us vs with
  | nil =>
    obtain ⟨rfl, -⟩ := List.append_eq_nil_iff.1 hsplit.symm
    exact hbefore
  | token _ hno _ =>
    rcases List.append_eq_singleton_iff.1 hsplit.symm with ⟨rfl, -⟩ | ⟨rfl, -⟩
    · exact hbefore
    · exact hbefore.other (hs 0 _ rfl) hno.eq_false.1 hno.eq_false.2
  | @append zone n ts₁ ts₂ h₁ h₂ ih₁ ih₂ =>
    obtain ⟨hs₁, hs₂⟩ := get?_append hs
    rcases List.append_eq_append_iff.1 hsplit with ⟨w, rfl, rfl⟩ | ⟨w, rfl, rfl⟩
    · have := ih₂ hs₂ (ih₁ hs₁ hbefore (List.append_nil ts₁).symm) rfl
      rw [List.length_append, ← Nat.add_assoc, List.map_append, List.reverse_append,
        List.append_assoc]
      exact this
    · exact ih₁ hs₁ hbefore rfl
  | @enclose outer inner n t t' ts henclose _ _ hts ih =>
    obtain ⟨ht, hinner, ht'⟩ := get?_enclosed hs
    obtain ⟨h₁, h₂⟩ := (Token.noBracket_of_kind henclose.kind_ne.1).eq_false
    obtain ⟨h₁', h₂'⟩ := (Token.noBracket_of_kind henclose.kind_ne.2).eq_false
    have hfirst := hbefore.other ht h₁ h₂
    rcases split_enclosed hsplit with rfl | ⟨w, x, rfl, rfl⟩ | rfl
    · exact hbefore
    · simpa [Nat.add_assoc, Nat.add_comm 1] using ih hinner hfirst rfl
    · have hlast := (ih hinner hfirst (List.append_nil ts).symm).other ht' h₁' h₂'
      simpa [Nat.add_assoc, Nat.add_comm 1] using hlast
  | @bracket n t t' ts shape hopens hcloses hrelated hrelated' hts ih =>
    obtain ⟨ht, hinner, ht'⟩ := get?_enclosed hs
    have hfirst : s.Leaves (n + 1) (t.lexeme :: before) :=
      TokenStream.leaves_opener ht (Token.opensBracket_iff.2 ⟨_, hopens⟩)
    rcases split_enclosed hsplit with rfl | ⟨w, x, rfl, rfl⟩ | rfl
    · exact hbefore
    · simpa [Nat.add_assoc, Nat.add_comm 1] using ih hinner hfirst rfl
    · have hlast := hbefore.closer ht' hcloses.opensBracket (Token.closesBracket_iff.2 ⟨_, hcloses⟩)
        hrelated' (by omega) ((Nested.bracket hopens hcloses hrelated hrelated' hts).unclosed_eq before)
      simpa [Nat.add_assoc, Nat.add_comm 1] using hlast

end Nested

/-- Is the last bracket that some lexemes leave open a square one? -/
def inSquare (before : List Lexeme) : Bool := (unclosed before).head?.any (·.2 == "[".toList)

theorem unclosed_filter (ls : List Lexeme) :
    unclosed (ls.filter fun l => !TokenKind.layout.contains l.1) = unclosed ls := by
  induction ls with
  | nil => rfl
  | cons l ls ih =>
    by_cases hl : TokenKind.layout.contains l.1 = true
    · have hkind : (Lexeme.token l).kind ≠ .punctuation := by
        intro hkind
        rw [show l.1 = .punctuation from hkind] at hl
        cases hl
      obtain ⟨hopens, hcloses⟩ := (Token.noBracket_of_kind hkind).eq_false
      rw [List.filter_cons_of_neg (by simpa using hl), ih, unclosed, hopens, hcloses]
      rfl
    · rw [List.filter_cons_of_pos (by simpa using hl), unclosed, unclosed, ih]

theorem inSquareBrackets_eq {table : OperatorTable} {source : List Char} {t : Template}
    (h : tokenize table source = .ok t) {i : Nat} (hi : i < t.stream.size) :
    Spacing.inSquareBrackets t.stream i = inSquare (t.stream.before i) := by
  obtain ⟨ts, eof, hts, hnested, -, -⟩ := tokenize_nested h
  have hsize : t.stream.size = ts.length + 1 := by
    rw [TokenStream.size, ← Array.length_toList, hts, List.length_append, List.length_singleton]
  have hs := Nested.get?_init hts
  have hstart : t.stream.Leaves 0 [] := .inl ⟨.start, rfl⟩
  have hleaves := hnested.leaves hs hstart (List.take_append_drop i ts).symm
  have hbefore : unclosed (((ts.take i).map Token.lexeme).reverse ++ []) =
      unclosed (t.stream.before i) := by
    have htake : (ts.take i).map Token.lexeme = t.stream.lexemes.take i := by
      rw [TokenStream.lexemes, hts, ← List.map_take, List.take_append_of_le_length (by omega)]
    rw [htake, List.append_nil, TokenStream.before, meaningful, ← List.filter_reverse,
      unclosed_filter]
  have hlength : 0 + (ts.take i).length = min i t.stream.size := by
    rw [List.length_take]
    omega
  rw [hlength] at hleaves
  unfold Spacing.inSquareBrackets inSquare TokenStream.enclosingBracket
  rw [← hbefore]
  rcases hleaves with ⟨henclosed, hnil⟩ | ⟨j, a, henclosed, ha, hhead⟩
  · rw [henclosed.enclosingFrom (by omega), hnil]
    rfl
  · rw [henclosed.enclosingFrom (by omega), hhead]
    rw [Bool.eq_iff_iff]
    simp [BracketSearch.index?, ha, Token.lexeme, Token.valueText_eq_iff]

/-! ### Comments -/

/-- The kinds after which a comment goes on. -/
def TokenKind.commentOpen : List TokenKind :=
  [.commentStart, .commentText, .commentSpaces, .commentTabs, .commentLineBreak]

/-- The kinds with which a comment goes on. -/
def TokenKind.commentNext : List TokenKind :=
  [.commentText, .commentSpaces, .commentTabs, .commentLineBreak, .commentEnd]

/-- The kinds with which a template can end, layout apart. -/
def TokenKind.endings : List TokenKind := [.text, .variableEnd, .blockEnd, .commentEnd]

/-- Comments stand on their own in the row. -/
structure Sorted (ts : List Token) : Prop where
  next : ∀ us a b vs, ts = us ++ a :: b :: vs →
    (a.kind ∈ TokenKind.commentOpen ↔ b.kind ∈ TokenKind.commentNext)
  head : ∀ t ∈ ts.head?, t.kind ∉ TokenKind.commentNext
  last : ∀ t ∈ ts.getLast?, t.kind ∉ TokenKind.commentOpen

namespace Sorted

variable {ts us : List Token} {t : Token}

theorem singleton (hopen : t.kind ∉ TokenKind.commentOpen)
    (hnext : t.kind ∉ TokenKind.commentNext) : Sorted [t] := by
  refine ⟨?_, ?_, ?_⟩
  · intro us a b vs h
    have := congrArg List.length h
    simp at this
    omega
  · intro u hu
    obtain rfl : t = u := Option.some.inj hu
    exact hnext
  · intro u hu
    obtain rfl : t = u := Option.some.inj hu
    exact hopen

theorem append (h₁ : Sorted ts) (h₂ : Sorted us) : Sorted (ts ++ us) := by
  refine ⟨?_, ?_, ?_⟩
  · intro as a b vs h
    rcases Nested.split_append h with ⟨w, rfl, hw⟩ | ⟨w, rfl, rfl⟩
    · cases w with
      | nil =>
        -- The two tokens stand on either side of the seam.
        have ha := h₁.last a (by simp)
        have hb := h₂.head b (by rw [← List.nil_append us, ← hw]; rfl)
        exact ⟨fun h => absurd h ha, fun h => absurd h hb⟩
      | cons c w =>
        obtain ⟨rfl, -⟩ := List.cons.inj hw
        exact h₁.next as a b w rfl
    · exact h₂.next w a b vs rfl
  · intro t ht
    cases ts with
    | nil => exact h₂.head t ht
    | cons a ts => exact h₁.head t ht
  · intro t ht
    rw [List.getLast?_append] at ht
    cases hlast : us.getLast? with
    | none =>
      rw [hlast] at ht
      exact h₁.last t ht
    | some a =>
      rw [hlast] at ht
      exact h₂.last t (by rw [hlast]; exact ht)

theorem comment {t' : Token} (hstart : t.kind = .commentStart) (hstop : t'.kind = .commentEnd)
    (hbody : ∀ u ∈ ts, u.kind ∈ TokenKind.commentOpen ∧ u.kind ∈ TokenKind.commentNext) :
    Sorted (t :: (ts ++ [t'])) := by
  have hopen : ∀ u ∈ t :: ts, u.kind ∈ TokenKind.commentOpen := by
    intro u hu
    rcases List.mem_cons.1 hu with rfl | hu
    · rw [hstart]
      decide
    · exact (hbody u hu).1
  have hnext : ∀ u ∈ ts ++ [t'], u.kind ∈ TokenKind.commentNext := by
    intro u hu
    rcases List.mem_append.1 hu with hu | hu
    · exact (hbody u hu).2
    · rw [List.mem_singleton.1 hu, hstop]
      decide
  refine ⟨?_, ?_, ?_⟩
  · intro us a b vs h
    -- The first of two neighbours is not the last token, and the second one not the first.
    have ha : a ∈ t :: ts := by
      rw [← List.cons_append] at h
      have hdrop := congrArg List.dropLast h
      rw [List.dropLast_concat] at hdrop
      rw [hdrop]
      simp
    have hb : b ∈ ts ++ [t'] := by
      have htail := congrArg List.tail h
      rw [List.tail_cons] at htail
      rw [htail]
      cases us <;> simp
    exact ⟨fun _ => hnext b hb, fun _ => hopen a ha⟩
  · intro u hu
    obtain rfl : t = u := Option.some.inj hu
    rw [hstart]
    decide
  · intro u hu
    rw [← List.cons_append, List.getLast?_concat] at hu
    obtain rfl : t' = u := Option.some.inj hu
    rw [hstop]
    decide

end Sorted

namespace Nested

variable {zone : Zone} {n : Nat} {ts : List Token}

theorem kind_of_comment (h : Nested .comment n ts) :
    ∀ t ∈ ts, t.kind ∈ TokenKind.commentOpen ∧ t.kind ∈ TokenKind.commentNext := by
  generalize hzone : Zone.comment = zone at h
  induction h with
  | nil => simp
  | token hkind _ _ =>
    subst hzone
    refine List.forall_mem_singleton.2 ?_
    revert hkind
    generalize (Token.kind _) = kind
    cases kind <;> decide
  | append _ _ ih₁ ih₂ => exact List.forall_mem_append.2 ⟨ih₁ hzone, ih₂ hzone⟩
  | enclose henclose =>
    subst hzone
    cases henclose
  | bracket => cases hzone

theorem sorted (h : Nested zone n ts) (hzone : zone ≠ .comment) : Sorted ts := by
  induction h with
  | nil => exact ⟨by simp, by simp, by simp⟩
  | @token zone _ t hkind _ _ =>
    have hkinds : ∀ kind ∈ zone.kinds,
        kind ∉ TokenKind.commentOpen ∧ kind ∉ TokenKind.commentNext := by
      cases zone with
      | comment => exact absurd rfl hzone
      | template | code | quoted => decide
    exact .singleton (hkinds _ hkind).1 (hkinds _ hkind).2
  | append _ _ ih₁ ih₂ => exact (ih₁ hzone).append (ih₂ hzone)
  | @enclose outer inner _ t t' ts henclose _ _ hts ih =>
    by_cases hinner : inner = .comment
    · subst hinner
      obtain ⟨hstart, hstop⟩ : t.kind = .commentStart ∧ t'.kind = .commentEnd := by
        generalize t.kind = start at henclose
        generalize t'.kind = stop at henclose
        cases henclose
        exact ⟨rfl, rfl⟩
      exact .comment hstart hstop hts.kind_of_comment
    · obtain ⟨hstart, hstop⟩ : (t.kind ∉ TokenKind.commentOpen ∧ t.kind ∉ TokenKind.commentNext) ∧
          t'.kind ∉ TokenKind.commentOpen ∧ t'.kind ∉ TokenKind.commentNext := by
        generalize t.kind = start at henclose
        generalize t'.kind = stop at henclose
        cases henclose with
        | comment => exact absurd rfl hinner
        | «variable» | block | quote | interpolation => decide
      exact (Sorted.singleton hstart.1 hstart.2).append
        ((ih hinner).append (.singleton hstop.1 hstop.2))
  | @bracket _ t t' ts _ hopens hcloses _ _ _ ih =>
    have hbracket : ∀ {t : Token}, t.kind = .punctuation → Sorted [t] := by
      intro t ht
      refine .singleton ?_ ?_ <;> rw [ht] <;> decide
    exact (hbracket hopens.1).append ((ih nofun).append (hbracket hcloses.1))

/-- The last token of template text that is no layout is text, or it ends a construct. -/
theorem last (h : Nested zone n ts) (hzone : zone = .template) {us vs : List Token} {t : Token}
    (hts : ts = us ++ t :: vs) (ht : t.kind ∉ TokenKind.layout)
    (hvs : ∀ u ∈ vs, u.kind ∈ TokenKind.layout) : t.kind ∈ TokenKind.endings := by
  induction h generalizing us vs t with
  | nil => exact absurd hts (by simp)
  | token hkind =>
    subst hzone
    obtain ⟨-, hts⟩ | ⟨-, hts⟩ := List.append_eq_singleton_iff.1 hts.symm
    · obtain ⟨rfl, -⟩ := List.cons.inj hts
      revert hkind ht
      generalize t.kind = kind
      cases kind <;> decide
    · cases hts
  | append _ _ ih₁ ih₂ =>
    rcases split_append hts with ⟨w, rfl, rfl⟩ | ⟨w, rfl, rfl⟩
    · exact ih₁ hzone rfl ht fun u hu => hvs u (List.mem_append_left _ hu)
    · exact ih₂ hzone rfl ht hvs
  | @enclose outer inner _ first final ts henclose =>
    subst hzone
    have hfinal : final.kind ∈ TokenKind.endings := by
      generalize first.kind = start at henclose
      generalize final.kind = stop at henclose
      cases henclose <;> decide
    -- The end of the construct is no layout, so no token before it is the last one.
    rcases List.eq_nil_or_concat vs with rfl | ⟨vs, u, rfl⟩
    · have hlast := congrArg List.getLast? hts
      rw [← List.cons_append, List.getLast?_concat, List.getLast?_concat] at hlast
      rw [← Option.some.inj hlast]
      exact hfinal
    · have hlast := congrArg List.getLast? hts
      rw [List.concat_eq_append, ← List.cons_append, ← List.cons_append, ← List.append_assoc,
        List.getLast?_concat, List.getLast?_concat] at hlast
      have hu := hvs u (by simp)
      rw [← Option.some.inj hlast] at hu
      have hdisjoint : ∀ kind ∈ TokenKind.endings, kind ∉ TokenKind.layout := by decide
      exact absurd hu (hdisjoint _ hfinal)
  | bracket => cases hzone

end Nested

end TwigStyle
