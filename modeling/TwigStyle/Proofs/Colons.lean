import TwigStyle.Proofs.Enclosed
import TwigStyle.Proofs.Grammar
import TwigStyle.Proofs.Peeking

/-!
# Which colons belong to a ternary

The colon of a ternary is an operator, and every other colon is punctuation.  Which one it is can be
told from the tokens that stand directly in the same place: in the same brackets, or in the same
interpolation, variable or block.  Behind the last comma there, every question mark waits for a colon,
and every colon takes one away (`pendingTernaries`).

The lexer keeps one row of open brackets and question marks for a construct, and drops question marks
at commas, at closing brackets and with the construct.  `Tallied` says that this row and the tokens
agree about every place that is open.
-/

namespace TwigStyle

/-! ### Places -/

namespace Lexeme

variable {l : Lexeme}

/-- What a lexeme opens: a place for code, in which nothing stands yet, or a place for text. -/
def opened? (l : Lexeme) : Option (Option (List Lexeme)) :=
  if [.variableStart, .blockStart, .interpolationStart].contains l.1 || l.token.opensBracket then
    some (some [])
  else if [.quoteStart, .commentStart].contains l.1 then some none
  else none

/-- Does the innermost place end with a lexeme? -/
def closesPlace (l : Lexeme) : Bool :=
  [.variableEnd, .blockEnd, .interpolationEnd, .quoteEnd, .commentEnd].contains l.1 ||
    l.token.closesBracket

/-- A lexeme is no end and no start of a place. -/
structure Stays (l : Lexeme) : Prop where
  opens : l.opened? = none
  closes : l.closesPlace = false

theorem Stays.of_noBracket
    (hkind : l.1 ∈ Zone.template.kinds ++ Zone.comment.kinds ++ Zone.code.kinds)
    (hopens : l.token.opensBracket = false) (hcloses : l.token.closesBracket = false) :
    l.Stays := by
  have hkinds : ∀ k ∈ Zone.template.kinds ++ Zone.comment.kinds ++ Zone.code.kinds,
      k ∉ [.variableStart, .blockStart, .interpolationStart] ∧ k ∉ [.quoteStart, .commentStart] ∧
      k ∉ [.variableEnd, .blockEnd, .interpolationEnd, .quoteEnd, .commentEnd] := by decide
  obtain ⟨hcode, htext, hend⟩ := hkinds l.1 hkind
  rw [← List.contains_iff_mem, Bool.not_eq_true] at hcode htext hend
  constructor
  · rw [opened?, hcode, hopens, htext]
    rfl
  · rw [closesPlace, hend, hcloses]
    rfl

theorem Stays.of_kind (hkind : l.1 ∈ Zone.template.kinds ++ Zone.comment.kinds ++ Zone.code.kinds)
    (hpunctuation : l.1 ≠ .punctuation) : l.Stays := by
  have hnone : ∀ value, l.token.isThe .punctuation value = false := by
    intro value
    rw [Token.isThe, Bool.and_eq_false_iff]
    exact .inl (beq_eq_false_iff_ne.2 hpunctuation)
  refine .of_noBracket hkind ?_ ?_
  · simp only [Token.opensBracket, hnone, Bool.or_self]
  · simp only [Token.closesBracket, hnone, Bool.or_self]

end Lexeme

/-- The places that are open behind some lexemes, the innermost first.  A place for code holds the
    lexemes that stand directly in it. -/
def places (ls : List Lexeme) : List (Option (List Lexeme)) :=
  ls.foldl (fun places l =>
    match l.opened? with
    | some place => place :: places
    | none => if l.closesPlace then places.tail else places.modifyHead (·.map (· ++ [l]))) []

section Places

variable {ls : List Lexeme} {l : Lexeme}

theorem places_open {place : Option (List Lexeme)} (h : l.opened? = some place) :
    places (ls ++ [l]) = place :: places ls := by
  simp [places, h]

theorem places_close (hopens : l.opened? = none) (hcloses : l.closesPlace = true) :
    places (ls ++ [l]) = (places ls).tail := by
  simp [places, hopens, hcloses]

theorem places_stay (h : l.Stays) :
    places (ls ++ [l]) = (places ls).modifyHead (·.map (· ++ [l])) := by
  simp [places, h.opens, h.closes]

end Places

/-- The lexemes that stand directly in the innermost place, if that is one for code. -/
def directly? (ls : List Lexeme) : Option (List Lexeme) := (places ls).head?.join

/-- The lexemes behind the last comma. -/
def sinceComma (ls : List Lexeme) : List Lexeme :=
  (ls.reverse.takeWhile (· != (.punctuation, [',']))).reverse

/-- A question mark waits for a colon, and a colon takes one away. -/
def tally (n : Nat) (l : Lexeme) : Nat :=
  if l = (.operator, ['?']) then n + 1
  else if l = (.operator, [':']) ∨ l = (.punctuation, [':']) then n - 1
  else n

/-- The question marks that wait for a colon behind lexemes that stand directly in a place. -/
def pendingTernaries (direct : List Lexeme) : Nat := (sinceComma direct).foldl tally 0

/-- A comma ends the waiting, too. -/
def tick (n : Nat) (l : Lexeme) : Nat := if l = (.punctuation, [',']) then 0 else tally n l

theorem pendingTernaries_concat (direct : List Lexeme) (l : Lexeme) :
    pendingTernaries (direct ++ [l]) = tick (pendingTernaries direct) l := by
  unfold pendingTernaries tick sinceComma
  by_cases hl : l = (.punctuation, [','])
  · simp [hl]
  · simp [hl]

theorem tick_of_kind {l : Lexeme} (hoperator : l.1 ≠ .operator) (hpunctuation : l.1 ≠ .punctuation)
    (n : Nat) : tick n l = n := by
  obtain ⟨k, v⟩ := l
  simp_all [tick, tally]

/-- The question marks that wait in the places that are open. -/
def tallies (ls : List Lexeme) : List (Option Nat) := (places ls).map (·.map pendingTernaries)

section Tallies

variable {ls new : List Lexeme} {l : Lexeme}

theorem tallies_open {place : Option (List Lexeme)} (h : l.opened? = some place) :
    tallies (ls ++ [l]) = place.map pendingTernaries :: tallies ls := by
  rw [tallies, places_open h]
  rfl

theorem tallies_close (hopens : l.opened? = none) (hcloses : l.closesPlace = true) :
    tallies (ls ++ [l]) = (tallies ls).tail := by
  rw [tallies, places_close hopens hcloses, List.map_tail]
  rfl

theorem tallies_stay (h : l.Stays) :
    tallies (ls ++ [l]) = (tallies ls).modifyHead (·.map (tick · l)) := by
  rw [tallies, tallies, places_stay h]
  cases places ls with
  | nil => rfl
  | cons place places =>
    cases place with
    | none => rfl
    | some direct => simp [pendingTernaries_concat]

theorem tallies_other (h : l.Stays) (hoperator : l.1 ≠ .operator)
    (hpunctuation : l.1 ≠ .punctuation) : tallies (ls ++ [l]) = tallies ls := by
  rw [tallies_stay h]
  cases tallies ls with
  | nil => rfl
  | cons n ns => cases n <;> simp [tick_of_kind hoperator hpunctuation]

theorem tallies_text (hnew : ∀ l ∈ new, l.Stays ∧ l.1 ≠ .operator ∧
    l.1 ≠ .punctuation) :
    tallies (ls ++ new) = tallies ls := by
  induction new generalizing ls with
  | nil => rw [List.append_nil]
  | cons l new ih =>
    obtain ⟨hl, hoperator, hpunctuation⟩ := hnew l List.mem_cons_self
    rw [List.append_cons, ih fun l' hl' => hnew l' (List.mem_cons_of_mem l hl'),
      tallies_other hl hoperator hpunctuation]

theorem map_directly? (ls : List Lexeme) :
    (directly? ls).map pendingTernaries = (tallies ls).head?.join := by
  unfold directly? tallies
  cases places ls with
  | nil => rfl
  | cons place places => cases place <;> rfl

theorem directly?_text (h : directly? ls = none)
    (hnew : ∀ l ∈ new, l.Stays ∨ l.opened? = some none) : directly? (ls ++ new) = none := by
  induction new generalizing ls with
  | nil => rwa [List.append_nil]
  | cons l new ih =>
    rw [List.append_cons]
    refine ih ?_ fun l' hl' => hnew l' (List.mem_cons_of_mem l hl')
    unfold directly? at h ⊢
    rcases hnew l List.mem_cons_self with hl | hl
    · rw [places_stay hl]
      cases hplaces : places ls with
      | nil => rfl
      | cons place places =>
        rw [hplaces] at h
        obtain rfl : place = none := h
        rfl
    · rw [places_open hl]
      rfl

end Tallies

/-! ### What is open in the lexer -/

/-- The question marks that wait in the places of an expression, the innermost first. -/
def pendingIn : List OpenBracket → List Nat
  | [] => [0]
  | b :: bs =>
    if b.shape = .ternary then (pendingIn bs).modifyHead (· + 1) else 0 :: pendingIn bs

section PendingIn

variable {b : OpenBracket} {bs : List OpenBracket}

theorem pendingIn_ternary (hb : b.shape = .ternary) :
    pendingIn (b :: bs) = (pendingIn bs).modifyHead (· + 1) := if_pos hb

theorem pendingIn_bracket (hb : b.shape ≠ .ternary) : pendingIn (b :: bs) = 0 :: pendingIn bs :=
  if_neg hb

theorem pendingIn_ne_nil (bs : List OpenBracket) : pendingIn bs ≠ [] := by
  induction bs with
  | nil => exact List.cons_ne_nil _ _
  | cons b bs ih =>
    by_cases hb : b.shape = .ternary
    · rwa [pendingIn_ternary hb, ne_eq, List.modifyHead_eq_nil_iff]
    · rw [pendingIn_bracket hb]
      exact List.cons_ne_nil _ _

theorem pendingIn_dropTernaries (bs : List OpenBracket) :
    pendingIn (dropTernaries bs) = 0 :: (pendingIn bs).tail := by
  induction bs with
  | nil => rfl
  | cons b bs ih =>
    by_cases hb : b.shape = .ternary
    · have hdrop : dropTernaries (b :: bs) = dropTernaries bs := by simp [dropTernaries, hb]
      rw [hdrop, ih, pendingIn_ternary hb]
      cases pendingIn bs <;> rfl
    · have hdrop : dropTernaries (b :: bs) = b :: bs := by simp [dropTernaries, hb]
      rw [hdrop, pendingIn_bracket hb]
      rfl

theorem head?_pendingIn (h : ∀ b ∈ bs.head?, b.shape ≠ .ternary) : (pendingIn bs).head? = some 0 := by
  cases bs with
  | nil => rfl
  | cons b bs =>
    rw [pendingIn_bracket (h b rfl)]
    rfl

end PendingIn

namespace Frame

variable {frame : Frame}

/-- The question marks that wait in the places of a construct. -/
def pending : Frame → List (Option Nat)
  | .quote => [none]
  | frame => (pendingIn frame.brackets).map some

theorem pending_withBrackets (h : frame ≠ .quote) (bs : List OpenBracket) :
    (frame.withBrackets bs).pending = (pendingIn bs).map some := by
  cases frame <;> first | rfl | exact absurd rfl h

theorem pending_of_ne_quote (h : frame ≠ .quote) :
    frame.pending = (pendingIn frame.brackets).map some := by
  rw [← frame.withBrackets_brackets, pending_withBrackets h, withBrackets_brackets]

end Frame

namespace Lexer

variable {s s' : Lexer} {frame : Frame} {outer : List Frame} {c : Char} {t rest : List Char}
  {lexed : Lexed}

/-- The tokens and what is open agree about the question marks that wait. -/
def Tallied (s : Lexer) : Prop := tallies s.emitted = s.frames.flatMap Frame.pending

theorem stays_of_mem_kinds {l : Lexeme} (hkind : l.1 ∈ Zone.template.kinds ++ Zone.comment.kinds) :
    l.Stays ∧ l.1 ≠ .operator ∧ l.1 ≠ .punctuation := by
  have hkinds : ∀ k ∈ Zone.template.kinds ++ Zone.comment.kinds,
      k ≠ .operator ∧ k ≠ .punctuation := by
    decide
  exact ⟨.of_kind (List.mem_append_left _ hkind) (hkinds _ hkind).2, hkinds _ hkind⟩

theorem stays_textLexemes (t : List Char) :
    ∀ l ∈ textLexemes t, l.Stays ∧ l.1 ≠ .operator ∧ l.1 ≠ .punctuation := fun l hl =>
  stays_of_mem_kinds (List.mem_append_left _ (kinds_textLexemes t l.1 (List.mem_map_of_mem hl)))

theorem stays_commentLexemes (t : List Char) :
    ∀ l ∈ commentLexemes t, l.Stays ∧ l.1 ≠ .operator ∧ l.1 ≠ .punctuation := fun l hl =>
  stays_of_mem_kinds (List.mem_append_right _ (kinds_commentLexemes t l.1 (List.mem_map_of_mem hl)))

theorem Tallied.data (h : s.Tallied) (hframes : s.frames = []) (hstep : s.data t = .ok (s', rest)) :
    s'.Tallied := by
  obtain ⟨new, hdata, hnew⟩ := data_of_ok hframes hstep
  have htext : ∀ before, tallies (s.emitted ++ textLexemes before) = [] := by
    intro before
    rw [tallies_text (stays_textLexemes before), h, hframes]
    rfl
  unfold Tallied
  generalize s'.frames = frames at hdata ⊢
  generalize s'.verbatim = verbatim at hdata
  cases hdata with
  | text _ => rw [hnew, htext, List.flatMap_nil]
  | «variable» _ | block _ =>
    rw [hnew, ← List.append_assoc, tallies_open rfl, htext]
    rfl
  | comment _ _ =>
    rw [hnew, ← List.append_assoc, tallies_close rfl rfl, ← List.append_assoc, List.append_cons,
      tallies_text (stays_commentLexemes _), tallies_open rfl, htext]
    rfl

theorem tick_operator {more : Nat} (hop : s.operator? OperatorTable.default c t = some more) (n : Nat) :
    tick n (.operator, c :: t.take more) = n := by
  have hquestion : c :: t.take more ≠ ['?'] := by
    intro hvalue
    obtain ⟨rfl, htake⟩ := List.cons.inj hvalue
    obtain ⟨-, -, r, -, hmore⟩ := operator?_start hop
    obtain rfl : more = 0 := by
      rcases List.take_eq_nil_iff.1 htake with hzero | rfl
      · exact hzero
      · rw [hmore, List.length_nil, Nat.zero_sub]
    exact operator?_question_ne hop
  have hcolon : c :: t.take more ≠ [':'] := by
    intro hvalue
    obtain ⟨rfl, -⟩ := List.cons.inj hvalue
    rw [operator?_eq_none_of_start (by decide +kernel)] at hop
    cases hop
  simp [tick, tally, hquestion, hcolon]

section Inside

variable (h : s.Tallied) (hframes : s.frames = frame :: outer)

include h hframes

theorem Tallied.eq_cons (hframe : frame ≠ .quote) :
    ∃ n ns, pendingIn frame.brackets = n :: ns ∧
      tallies s.emitted = some n :: (ns.map some ++ outer.flatMap Frame.pending) := by
  obtain ⟨n, ns, hpending⟩ := List.exists_cons_of_ne_nil (pendingIn_ne_nil frame.brackets)
  refine ⟨n, ns, hpending, ?_⟩
  rw [h, hframes, List.flatMap_cons, Frame.pending_of_ne_quote hframe, hpending]
  rfl

theorem Tallied.punctuation (hframe : frame ≠ .quote) (hlexed : Marks s frame outer c lexed) :
    (s.take frame lexed c t).Tallied := by
  obtain ⟨n, ns, hpending, htallies⟩ := h.eq_cons hframes hframe
  have hstay : ∀ {kind : TokenKind} {bs : List OpenBracket}, Lexeme.Stays (kind, [c]) →
      pendingIn bs = tick n (kind, [c]) :: ns →
      (s.take frame ⟨kind, 0, frame.withBrackets bs :: outer, none⟩ c t).Tallied := by
    intro kind bs hstays hbs
    rw [Tallied, emitted_take, take_frames, List.flatMap_cons, Frame.pending_withBrackets hframe, hbs]
    exact (tallies_stay hstays).trans (by rw [htallies]; rfl)
  have hsame : ∀ {kind : TokenKind}, Lexeme.Stays (kind, [c]) → tick n (kind, [c]) = n →
      (s.take frame ⟨kind, 0, frame :: outer, none⟩ c t).Tallied := by
    intro kind hstays htick
    have hbrackets : pendingIn frame.brackets = tick n (kind, [c]) :: ns := by
      rw [htick, hpending]
    have htallied := hstay hstays hbrackets
    rwa [frame.withBrackets_brackets] at htallied
  cases hlexed with
  | question hc =>
    subst hc
    refine hstay (.of_kind (by decide) nofun) ?_
    rw [pendingIn_ternary rfl, hpending]
    rfl
  | @answer _ bs hc hb hbs =>
    subst hc
    refine hstay (.of_kind (by decide) nofun) ?_
    obtain ⟨m, ms, hm⟩ := List.exists_cons_of_ne_nil (pendingIn_ne_nil bs)
    rw [hbs, pendingIn_ternary hb, hm] at hpending
    cases hpending
    exact hm
  | colon hc hbs =>
    subst hc
    refine hsame ⟨rfl, rfl⟩ ?_
    have hzero := head?_pendingIn hbs
    rw [hpending] at hzero
    cases hzero
    rfl
  | comma hc =>
    subst hc
    refine hstay ⟨rfl, rfl⟩ ?_
    rw [pendingIn_dropTernaries, hpending]
    rfl
  | other hc => rcases hc with rfl | rfl <;> exact hsame ⟨rfl, rfl⟩ rfl
  | opener hshape =>
    have hopens : Lexeme.opened? (.punctuation, [c]) = some (some []) := by
      have hbracket : (Lexeme.token (.punctuation, [c])).opensBracket = true :=
        Token.opensBracket_iff.2 ⟨_, rfl, c, rfl, hshape⟩
      rw [Lexeme.opened?, hbracket, Bool.or_true, if_pos rfl]
    rw [Tallied, emitted_take, take_frames, List.flatMap_cons, Frame.pending_withBrackets hframe,
      pendingIn_bracket (BracketShape.ofOpener?_ne_ternary hshape), hpending]
    exact (tallies_open hopens).trans (by rw [htallies]; rfl)
  | closer hshape hbs =>
    have hdrop := pendingIn_dropTernaries frame.brackets
    rw [hbs, pendingIn_bracket (BracketShape.ofCloser?_ne_ternary hshape), hpending] at hdrop
    rw [Tallied, emitted_take, take_frames, List.flatMap_cons, Frame.pending_withBrackets hframe,
      (List.cons.inj hdrop).2]
    have hplace : Lexeme.opened? (.punctuation, [c]) = none ∧
        Lexeme.closesPlace (.punctuation, [c]) = true := by
      rcases BracketShape.ofCloser?_eq_some_iff.1 hshape with ⟨rfl, -⟩ | ⟨rfl, -⟩ | ⟨rfl, -⟩ <;>
        exact ⟨rfl, rfl⟩
    exact (tallies_close hplace.1 hplace.2).trans (by rw [htallies]; rfl)

theorem Tallied.read (hframe : frame ≠ .quote)
    (hlexed : Reading s OperatorTable.default frame outer c t lexed) :
    (s.take frame lexed c t).Tallied := by
  have hother : ∀ {kind : TokenKind} {frames : List Frame} (more : Nat), kind ∈ Zone.code.kinds →
      kind ≠ .operator → kind ≠ .punctuation →
      frames.flatMap Frame.pending = (frame :: outer).flatMap Frame.pending →
        (s.take frame ⟨kind, more, frames, none⟩ c t).Tallied := by
    intro kind frames more hkind hoperator hpunctuation hsame
    rw [Tallied, emitted_take, take_frames, hsame, ← hframes, ← h]
    exact tallies_other (.of_kind (List.mem_append_right _ hkind) hpunctuation) hoperator hpunctuation
  cases hlexed with
  | layout hc =>
    have htext := (Lexeme.layoutAt_of_layout hc t).1
    generalize (Lexeme.layoutAt c t).1 = cls at htext ⊢
    cases cls with
    | text => exact absurd rfl htext
    | spaces | tabs | lineBreak => exact hother _ (by decide) (by decide) (by decide) rfl
  | spread | arrow | number | string => exact hother _ (by decide) (by decide) (by decide) rfl
  | operator _ hop =>
    obtain ⟨n, ns, hpending, htallies⟩ := h.eq_cons hframes hframe
    rw [Tallied, emitted_take, take_frames, ← hframes, ← h,
      tallies_stay (.of_kind (List.mem_append_right _ (by simp [Zone.kinds])) (by simp)), htallies]
    exact congrArg (some · :: _) (tick_operator hop n)
  | name _ _ _ =>
    unfold nameLexed
    split
    · exact hother _ (by decide) (by decide) (by decide) rfl
    · exact hother _ (by decide) (by decide) (by decide) rfl
  | punctuation _ _ _ _ hpunct => exact h.punctuation hframes hframe (.of_ok hpunct)
  | quote _ _ _ =>
    have hopens : Lexeme.opened? (.quoteStart, c :: t.take 0) = some none := rfl
    rw [Tallied, emitted_take, take_frames, List.flatMap_cons, ← hframes, ← h]
    exact tallies_open hopens

theorem Tallied.take (hlexed : Inside s OperatorTable.default frame outer c t lexed) :
    (s.take frame lexed c t).Tallied := by
  have hquote : frame = .quote → tallies s.emitted = none :: outer.flatMap Frame.pending := by
    rintro rfl
    rw [h, hframes]
    rfl
  cases hlexed with
  | endQuote hframe _ =>
    rw [Tallied, emitted_take, take_frames, tallies_close rfl rfl, hquote hframe]
    rfl
  | interpolate hframe _ _ =>
    rw [Tallied, emitted_take, take_frames, tallies_open rfl, hquote hframe]
    rfl
  | literal hframe _ _ =>
    have hstring : ∀ v, tallies (s.emitted ++ [(.string, v)]) = tallies s.emitted :=
      fun v => tallies_other (.of_kind (List.mem_append_right _ (by simp [Zone.kinds])) nofun) nofun nofun
    rw [Tallied, emitted_take, take_frames, hstring, hquote hframe]
    rfl
  | close hend =>
    obtain ⟨hopen, v, hv, rfl, -, -⟩ := Frame.endAt?_eq_some_iff.1 hend
    have hframe : frame ≠ .quote := by
      rintro rfl
      cases hv
    obtain ⟨n, ns, hpending, htallies⟩ := h.eq_cons hframes hframe
    have hplace : ∀ v, Lexeme.opened? (frame.endKind, v) = none ∧
        Lexeme.closesPlace (frame.endKind, v) = true := by
      intro v
      cases frame <;> exact ⟨rfl, rfl⟩
    -- With no bracket open there is one place, and it ends with the construct.
    have hdrop := pendingIn_dropTernaries frame.brackets
    rw [dropTernaries_eq_nil hopen, hpending] at hdrop
    obtain rfl : ns = [] := (List.cons.inj hdrop).2.symm
    rw [Tallied, emitted_take, take_frames, tallies_close (hplace _).1 (hplace _).2, htallies]
    rfl
  | read hframe _ hread => exact h.read hframes hframe hread

end Inside

theorem Tallied.step (h : s.Tallied)
    (hstep : s.step OperatorTable.default c t = .ok (s', rest)) : s'.Tallied := by
  obtain ⟨hframes, hdata⟩ | ⟨frame, outer, lexed, hframes, hlexed, rfl, -⟩ := step_cases hstep
  · exact h.data hframes hdata
  · exact h.take hframes hlexed

theorem tallied_init : ({} : Lexer).Tallied := rfl

theorem Data.directly? {verbatim verbatim' : Bool} {new before after : List Lexeme} {l : Lexeme}
    {frames : List Frame} (hdata : Data verbatim t new frames verbatim' rest)
    (hsplit : new = before ++ l :: after) {ls : List Lexeme} (hls : TwigStyle.directly? ls = none) :
    TwigStyle.directly? (ls ++ before) = none := by
  have htext : ∀ {u : List Char}, ∀ l ∈ textLexemes u, l.Stays ∨ l.opened? = some none :=
    fun l hl => .inl (stays_textLexemes _ l hl).1
  -- A delimiter that opens code comes last.
  have hinit : ∀ l ∈ new.dropLast, l.Stays ∨ l.opened? = some none := by
    cases hdata with
    | text => exact fun l hl => htext l (List.dropLast_subset _ hl)
    | «variable» | block =>
      rw [List.dropLast_concat]
      exact htext
    | comment =>
      rw [List.dropLast_concat]
      intro l hl
      rcases List.mem_append.1 hl with hl | hl
      · exact htext l hl
      · rcases List.mem_cons.1 hl with rfl | hl
        · exact .inr rfl
        · exact .inl (stays_commentLexemes _ l hl).1
  refine directly?_text hls fun b hb => hinit b ?_
  rw [hsplit, List.dropLast_append_cons]
  exact List.mem_append_left _ hb

theorem Inside.colon {n : Nat} {ns : List Nat} (hframe : frame ≠ .quote)
    (hpending : pendingIn frame.brackets = n :: ns)
    (hlexed : Inside s OperatorTable.default frame outer ':' t lexed) :
    lexed.kind = if 0 < n then .operator else .punctuation := by
  cases hlexed with
  | endQuote hquote | interpolate hquote | literal hquote => exact absurd hquote hframe
  | close hend =>
    have hmem := Frame.mem_ends hend
    cases frame <;> simp [Frame.ends] at hmem
  | read _ _ hread =>
    cases hread with
    | layout hc | name _ _ hc | number _ _ _ hc => cases hc
    | spread _ hafter | arrow _ _ hafter => cases hafter
    | operator _ hop =>
      rw [operator?_eq_none_of_start (by decide +kernel)] at hop
      cases hop
    | string _ _ hc | quote _ _ hc => cases hc
    | punctuation _ _ _ _ hpunct =>
      cases Marks.of_ok hpunct with
      | question hc | comma hc => cases hc
      | other hc => rcases hc with hc | hc <;> cases hc
      | opener hshape | closer hshape => cases hshape
      | @answer _ bs _ hb hbs =>
        obtain ⟨m, ms, hm⟩ := List.exists_cons_of_ne_nil (pendingIn_ne_nil bs)
        rw [hbs, pendingIn_ternary hb, hm] at hpending
        cases hpending
        exact (if_pos (Nat.succ_pos m)).symm
      | colon _ hbs =>
        have hzero := head?_pendingIn hbs
        rw [hpending] at hzero
        cases hzero
        rfl

theorem Tallied.colon (h : s.Tallied) (hframes : s.frames = frame :: outer)
    (hlexed : Inside s OperatorTable.default frame outer ':' t lexed) :
    (∀ direct, directly? s.emitted = some direct →
      lexed.kind = if 0 < pendingTernaries direct then .operator else .punctuation) ∧
    (directly? s.emitted = none → lexed.kind ≠ .operator ∧ lexed.kind ≠ .punctuation) := by
  have hmap := map_directly? s.emitted
  by_cases hframe : frame = .quote
  · subst hframe
    rw [h, hframes] at hmap
    rw [Option.map_eq_none_iff.1 hmap]
    refine ⟨nofun, fun _ => ?_⟩
    cases hlexed with
    | endQuote | interpolate | literal => exact ⟨nofun, nofun⟩
    | close hend => cases hend
    | read hquote => exact absurd rfl hquote
  · obtain ⟨n, ns, hpending, htallies⟩ := h.eq_cons hframes hframe
    rw [htallies] at hmap
    obtain ⟨direct, hdirect, hn⟩ := Option.map_eq_some_iff.1 hmap
    rw [hdirect]
    refine ⟨fun direct' hsame => ?_, nofun⟩
    cases hsame
    rw [hn]
    exact hlexed.colon hframe hpending

end Lexer

/-! ### Colons -/

/-- **The kind of a colon is told by its place.** In code a colon is an operator if a question mark
    waits among the tokens that stand directly in the same place behind the last comma, and
    punctuation otherwise.  Anywhere else it is a piece of text. -/
theorem tokenize_colon {source : List Char} {t : Template} {ls ms : List Lexeme} {l : Lexeme}
    (h : tokenize OperatorTable.default source = .ok t)
    (hsplit : t.stream.lexemes = ls ++ l :: ms) (hcolon : l.2 = [':']) :
    (∀ direct, directly? ls = some direct →
      l.1 = if 0 < pendingTernaries direct then .operator else .punctuation) ∧
    (directly? ls = none → l.1 ≠ .operator ∧ l.1 ≠ .punctuation) := by
  have heof : l.1 ≠ .eof := by
    obtain ⟨all, hall, -, hsolid⟩ := tokenize_lexemes h
    have hmem : l ∈ all ++ [(.eof, [])] := by simp [← hall, hsplit]
    rcases List.mem_append.1 hmem with hmem | hmem
    · exact (hsolid l hmem).1
    · rw [List.mem_singleton.1 hmem] at hcolon
      cases hcolon
  obtain ⟨s, c, u, s', rest, before, after, -, htallied, hstep, rfl, hemitted, -, -⟩ :=
    tokenize_moment Lexer.tallied_init Lexer.Tallied.step h hsplit heof
  obtain ⟨hframes, hstep⟩ | ⟨frame, outer, lexed, hframes, hlexed, rfl, -⟩ := Lexer.step_cases hstep
  · obtain ⟨new, hdata, hnew⟩ := Lexer.data_of_ok hframes hstep
    rw [hemitted, List.append_cancel_left_eq] at hnew
    have hnone : directly? s.emitted = none := by
      have hmap := map_directly? s.emitted
      rw [htallied, hframes] at hmap
      exact Option.map_eq_none_iff.1 hmap
    have hkinds : ∀ k ∈ Zone.template.kinds ++ Zone.comment.kinds ++
        [.commentStart, .commentEnd, .variableStart, .blockStart], k ≠ .operator ∧ k ≠ .punctuation := by
      decide
    rw [hdata.directly? hnew.symm hnone]
    exact ⟨nofun, fun _ => hkinds _ (hdata.kind_mem (by simp [← hnew]))⟩
  · rw [Lexer.emitted_take, List.append_cancel_left_eq] at hemitted
    obtain ⟨rfl, rfl, rfl⟩ : before = [] ∧ l = (lexed.kind, c :: u.take lexed.more) ∧ after = [] := by
      simpa [List.singleton_eq_append_iff] using hemitted
    obtain ⟨rfl, -⟩ := List.cons.inj hcolon
    rw [List.append_nil]
    exact htallied.colon hframes hlexed

/-- The colon of a ternary behind a hash, which has a colon of its own. -/
theorem tokenize_colon_hash :
    ∃ t ls ms, tokenize OperatorTable.default "\x7b\x7b a?\x7bb:c\x7d:d \x7d\x7d".toList = .ok t ∧
      t.stream.lexemes = ls ++ (.operator, [':']) :: ms ∧
      directly? ls = some [(.spaces, [' ']), (.name, ['a']), (.operator, ['?'])] ∧
      TokenKind.operator = if 0 < pendingTernaries [(.spaces, [' ']), (.name, ['a']), (.operator, ['?'])]
        then .operator else .punctuation := by
  obtain ⟨t, ht⟩ := exists_ok_of_isOk (x := tokenize OperatorTable.default
    "\x7b\x7b a?\x7bb:c\x7d:d \x7d\x7d".toList) (by decide +kernel)
  have hlexemes : (tokenize OperatorTable.default
      "\x7b\x7b a?\x7bb:c\x7d:d \x7d\x7d".toList).toOption.map (·.stream.lexemes) =
      some ([(.variableStart, ['\x7b', '\x7b']), (.spaces, [' ']), (.name, ['a']), (.operator, ['?']),
        (.punctuation, ['\x7b']), (.name, ['b']), (.punctuation, [':']), (.name, ['c']),
        (.punctuation, ['\x7d'])] ++ (.operator, [':']) :: [(.name, ['d']), (.spaces, [' ']),
        (.variableEnd, ['\x7d', '\x7d']), (.eof, [])]) := by
    decide +kernel
  rw [ht] at hlexemes
  have hsplit := Option.some.inj hlexemes
  have hdirect : directly? [(.variableStart, ['\x7b', '\x7b']), (.spaces, [' ']), (.name, ['a']),
      (.operator, ['?']), (.punctuation, ['\x7b']), (.name, ['b']), (.punctuation, [':']),
      (.name, ['c']), (.punctuation, ['\x7d'])] =
      some [(.spaces, [' ']), (.name, ['a']), (.operator, ['?'])] := by
    decide +kernel
  exact ⟨t, _, _, ht, hsplit, hdirect, (tokenize_colon ht hsplit rfl).1 _ hdirect⟩

end TwigStyle
