import TwigStyle.Proofs.Enclosed
import TwigStyle.Proofs.Grammar
import TwigStyle.Proofs.Places

/-!
# Where cutting fails

A source that cannot be cut into tokens is told where that is.  The tokens up to there spell the
text in front of the place, and everything that a failure says can be read off them and the text
behind: the character that starts no lexeme, the comment that was opened last, the bracket that is
closed by another one, the construct that is still open at the end (`Located`).

What is still open is told from the tokens alone: `stillOpen` keeps those that opened something and
takes one away at every end.  That the lexer has the same in its frames is known from `Pending`,
which says of its tokens that they are nested up to what the frames hold open.  New are only the
lines of the open brackets (`Lexer.Dated`).
-/

namespace TwigStyle

variable {bs : List OpenBracket} {os : List Opening} {ts : List Token} {b : OpenBracket}

/-- The kind of the token that opens a shape. -/
def BracketShape.kind : BracketShape → TokenKind
  | .ternary => .operator
  | _ => .punctuation

/-! ### What is still open -/

namespace Token

/-- Does the token open a bracket or a construct? -/
def opensPlace (t : Token) : Bool :=
  t.opensBracket || [.variableStart, .blockStart, .commentStart, .quoteStart,
    .interpolationStart].contains t.kind

/-- Does the token close a bracket or a construct? -/
def closesPlace (t : Token) : Bool :=
  t.closesBracket || [.variableEnd, .blockEnd, .commentEnd, .quoteEnd,
    .interpolationEnd].contains t.kind

end Token

/-- The tokens that opened what is still open behind some tokens, in both rows the last one first.
    -/
def stillOpen : List Token → List Token
  | [] => []
  | t :: before =>
    if t.opensPlace then t :: stillOpen before
    else if t.closesPlace then (stillOpen before).tail
    else stillOpen before

/-- The token that opened the innermost construct, brackets apart. -/
def innermostConstruct? (ts : List Token) : Option Token :=
  (stillOpen ts.reverse).find? (!·.opensBracket)

section StillOpen

variable {t : Token} {before : List Token} {shape : BracketShape} {inner outer zone : Zone}

theorem stillOpen_open (h : t.opensPlace = true) :
    stillOpen (t :: before) = t :: stillOpen before := if_pos h

theorem stillOpen_close (hopens : t.opensPlace = false) (hcloses : t.closesPlace = true) :
    stillOpen (t :: before) = (stillOpen before).tail := by
  rw [stillOpen, hopens, hcloses]
  rfl

theorem stillOpen_stay (hopens : t.opensPlace = false) (hcloses : t.closesPlace = false) :
    stillOpen (t :: before) = stillOpen before := by
  rw [stillOpen, hopens, hcloses]
  rfl

theorem Token.NoBracket.places (h : t.NoBracket) (hkind : t.kind ∈ zone.kinds) :
    t.opensPlace = false ∧ t.closesPlace = false := by
  have hkinds : ∀ k ∈ zone.kinds,
      [.variableStart, .blockStart, .commentStart, .quoteStart, .interpolationStart].contains k =
        false ∧
      [.variableEnd, .blockEnd, .commentEnd, .quoteEnd, .interpolationEnd].contains k = false := by
    cases zone <;> decide
  obtain ⟨hopens, hcloses⟩ := h.eq_false
  rw [Token.opensPlace, Token.closesPlace, hopens, hcloses, (hkinds _ hkind).1, (hkinds _ hkind).2]
  exact ⟨rfl, rfl⟩

theorem Token.Opens.opensPlace (h : t.Opens shape) : t.opensPlace = true := by
  rw [Token.opensPlace, Token.opensBracket_iff.2 ⟨shape, h⟩, Bool.true_or]

theorem Token.Closes.places (h : t.Closes shape) :
    t.opensPlace = false ∧ t.closesPlace = true := by
  rw [Token.opensPlace, Token.closesPlace, h.opensBracket, Token.closesBracket_iff.2 ⟨shape, h⟩,
    h.1]
  exact ⟨rfl, rfl⟩

theorem Encloses.opensPlace {stop : TokenKind} (h : Encloses outer t.kind stop inner) :
    t.opensPlace = true := by
  rw [Token.opensPlace, (Token.noBracket_of_kind h.kind_ne.1).eq_false.1, Bool.false_or]
  generalize t.kind = k at h ⊢
  cases h <;> rfl

theorem Encloses.places {start : TokenKind} (h : Encloses outer start t.kind inner) :
    t.opensPlace = false ∧ t.closesPlace = true := by
  obtain ⟨hopens, hcloses⟩ := (Token.noBracket_of_kind h.kind_ne.2).eq_false
  rw [Token.opensPlace, Token.closesPlace, hopens, hcloses]
  generalize t.kind = k at h ⊢
  cases h <;> exact ⟨rfl, rfl⟩

theorem Nested.stillOpen_eq {n : Nat} {ts : List Token} (h : Nested zone n ts)
    (before : List Token) : stillOpen (ts.reverse ++ before) = stillOpen before := by
  -- A token that opens and the one that closes it, with nested tokens in between.
  have hpair : ∀ {t t' : Token} {ts : List Token} (before : List Token), t.opensPlace = true →
      t'.opensPlace = false ∧ t'.closesPlace = true →
      (∀ before, stillOpen (ts.reverse ++ before) = stillOpen before) →
        stillOpen ((t :: (ts ++ [t'])).reverse ++ before) = stillOpen before := by
    intro t t' ts before hopens hcloses ih
    have hreverse : (t :: (ts ++ [t'])).reverse ++ before = t' :: (ts.reverse ++ t :: before) := by
      simp
    rw [hreverse, stillOpen_close hcloses.1 hcloses.2, ih, stillOpen_open hopens, List.tail_cons]
  induction h generalizing before with
  | nil => rfl
  | token hkind hno _ => exact stillOpen_stay (hno.places hkind).1 (hno.places hkind).2
  | append _ _ ih₁ ih₂ => rw [List.reverse_append, List.append_assoc, ih₂, ih₁]
  | enclose henclose _ _ _ ih => exact hpair before henclose.opensPlace henclose.places ih
  | bracket hopens hcloses _ _ _ ih => exact hpair before hopens.opensPlace hcloses.places ih

end StillOpen

/-! ### What the frames hold open -/

/-- The token that opened something, `n` tokens behind the start. -/
def Opening.OpenedBy : Opening → Token → Nat → Prop
  | .bracket shape i, t, n => t.Opens shape ∧ i = n
  | .enclosure stop inner, t, _ => ∃ outer, Encloses outer t.kind stop inner

theorem Pending.stillOpen_cons {o : Opening} (h : Pending (o :: os) ts) :
    ∃ before t after, ts = before ++ t :: after ∧ Pending os before ∧
      o.OpenedBy t before.length ∧ stillOpen ts.reverse = t :: stillOpen before.reverse := by
  have hsplit : ∀ {before after : List Token} {t : Token} {zone : Zone} {n : Nat},
      t.opensPlace = true → Nested zone n after →
        stillOpen (before ++ t :: after).reverse = t :: stillOpen before.reverse := by
    intro before after t zone n hopens hafter
    have hreverse : (before ++ t :: after).reverse = after.reverse ++ t :: before.reverse := by simp
    rw [hreverse, hafter.stillOpen_eq, stillOpen_open hopens]
  cases h with
  | @bracket _ before after t shape h _ hopens hafter =>
    exact ⟨before, t, after, rfl, h, ⟨hopens, rfl⟩, hsplit hopens.opensPlace hafter⟩
  | @enclosure _ before after t stop inner h henclose _ hafter =>
    exact ⟨before, t, after, rfl, h, ⟨_, henclose⟩, hsplit henclose.opensPlace hafter⟩

namespace Frame

variable {frame : Frame} {t : Token} {n : Nat}

theorem kind_of_openedBy (h : frame.enclosure.OpenedBy t n) : t.kind = frame.start := by
  cases frame <;>
    · obtain ⟨outer, henclose⟩ := h
      generalize t.kind = k at henclose ⊢
      cases henclose
      rfl

theorem opensBracket_of_openedBy (h : frame.enclosure.OpenedBy t n) : t.opensBracket = false := by
  refine (Token.noBracket_of_kind ?_).eq_false.1
  rw [kind_of_openedBy h]
  cases frame <;> exact nofun

end Frame

/-- Behind the brackets of a construct comes the token that opened it. -/
theorem Pending.innermostConstruct {frame : Frame}
    (h : Pending (openBrackets bs ++ frame.enclosure :: os) ts) :
    ∃ a, innermostConstruct? ts = some a ∧ a.kind = frame.start := by
  unfold innermostConstruct?
  unfold openBrackets at h
  generalize bs.filter (·.shape != .ternary) = bs at h
  induction bs generalizing ts with
  | nil =>
    obtain ⟨before, a, after, -, -, hby, hopen⟩ := h.stillOpen_cons
    refine ⟨a, ?_, Frame.kind_of_openedBy hby⟩
    rw [hopen, List.find?_cons_of_pos]
    rw [Frame.opensBracket_of_openedBy hby]
    rfl
  | cons b bs ih =>
    obtain ⟨before, t, after, -, hbefore, hby, hopen⟩ := h.stillOpen_cons
    obtain ⟨a, hfind, hkind⟩ := ih hbefore
    refine ⟨a, ?_, hkind⟩
    rw [hopen, List.find?_cons_of_neg, hfind]
    rw [Token.opensBracket_iff.2 ⟨_, hby.1⟩]
    exact nofun

/-! ### How a step fails -/

theorem Token.Opens.value {t : Token} {shape : BracketShape} (h : t.Opens shape) :
    t.value = [shape.opener] := by
  obtain ⟨-, c, hc, hopener⟩ := h
  rcases BracketShape.ofOpener?_eq_some_iff.1 hopener with ⟨rfl, rfl⟩ | ⟨rfl, rfl⟩ | ⟨rfl, rfl⟩ <;>
    exact hc

theorem mem_of_mem_dropTernaries (h : b ∈ dropTernaries bs) :
    b ∈ bs := (List.dropWhile_sublist _).subset h

theorem shape_ne_of_dropTernaries {bs' : List OpenBracket} (h : dropTernaries bs = b :: bs') :
    b.shape ≠ .ternary := by
  have hhead := List.head?_dropWhile_not (·.shape == BracketShape.ternary) bs
  unfold dropTernaries at h
  rw [h] at hhead
  simpa using hhead

theorem Delimiter.not_infix_of_commentBody? {t : List Char} (h : commentBody? t = none) :
    ¬['#', '\x7d'] <:+: t := by
  induction t with
  | nil =>
    intro hinfix
    cases List.infix_nil.1 hinfix
  | cons c t ih =>
    rw [commentBody?] at h
    split at h
    · cases h
    · rename_i hend
      split at h
      · rename_i hbody
        intro hinfix
        rcases List.infix_cons_iff.1 hinfix with hstart | htail
        · obtain ⟨u, hu⟩ := hstart
          rw [← hu] at hend
          cases hend
        · exact ih hbody htail
      · cases h

namespace Lexer

variable {s s' : Lexer} {table : OperatorTable} {frame : Frame} {outer : List Frame} {c : Char}
  {t rest source : List Char} {lexed : Lexed} {e : LexError} {f : LexFailure}

/-- The failures inside of a construct. -/
inductive Fails (s : Lexer) (frame : Frame) (c : Char) : LexError → Prop
  | character : Fails s frame c (.unexpectedCharacter c s.position.line)
  | closed {shape : BracketShape} (hc : BracketShape.ofCloser? c = some shape)
      (hbs : dropTernaries frame.brackets = []) :
    Fails s frame c (.unclosedBracket c s.position.line)
  | mismatched {shape : BracketShape} {b : OpenBracket} {bs : List OpenBracket}
      (hc : BracketShape.ofCloser? c = some shape) (hbs : dropTernaries frame.brackets = b :: bs)
      (hne : b.shape ≠ shape) :
    Fails s frame c (.unclosedBracket b.shape.opener b.line)

theorem Fails.of_punctuation (h : s.punctuation? frame outer c = some (.error e)) :
    Fails s frame c e := by
  unfold punctuation? at h
  simp only at h
  split at h
  · cases h
  split at h
  · split at h <;> cases h
  split at h
  · cases h
  split at h
  · cases h
  split at h
  · cases h
  · rename_i shape _ hcloser
    simp only [Option.some.injEq] at h
    unfold Lexer.closer at h
    split at h
    · rename_i hbs
      cases h
      exact .closed hcloser hbs
    · rename_i hbs
      split at h
      · cases h
      · rename_i hne
        cases h
        exact .mismatched hcloser hbs hne
  · cases h

theorem Fails.of_expression (h : s.expression table frame outer c t = .error e) :
    Fails s frame c e := by
  unfold expression at h
  split at h
  · cases h
  split at h
  · cases h
  split at h
  · cases h
  split at h
  · cases h
  split at h
  · cases h
  split at h
  · cases h
  split at h
  · rename_i hpunct
    rw [h] at hpunct
    exact .of_punctuation hpunct
  split at h
  · split at h
    · cases h
    · cases h
      exact .character
  · split at h
    · cases h
    · cases h
      exact .character

theorem Fails.of_inside (h : s.inside table frame outer c t = .error e) : Fails s frame c e := by
  by_cases hframe : frame = .quote
  · subst hframe
    simp only [inside] at h
    split at h
    · cases h
    · split at h <;> cases h
  · rw [inside_of_ne_quote hframe] at h
    split at h
    · cases h
    · exact .of_expression h

theorem data_error (h : s.data t = .error f) :
    ∃ before value after, Delimiter.find s.verbatim 0 t = (before, some (.comment, value, after)) ∧
      Delimiter.commentBody? after = none ∧
      f = ⟨.unclosedComment (s.emitAll (textLexemes before)).position.line,
        { s.emitAll (textLexemes before) with verbatim := false }.emit .commentStart value⟩ := by
  unfold data at h
  rcases hfind : Delimiter.find s.verbatim 0 t with ⟨before, found⟩
  simp only [hfind] at h
  split at h
  · cases h
  · cases h
  · cases h
  · rename_i value after
    unfold comment at h
    simp only at h
    split at h
    · rename_i hbody
      cases h
      exact ⟨before, value, after, rfl, hbody, rfl⟩
    · cases h

/-! ### The lines of open brackets -/

/-- A lexeme takes some of the open brackets away, or it opens one here. -/
theorem Inside.stack (h : Inside s table frame outer c t lexed) :
    (lexed.frames.flatMap Frame.brackets).Sublist ((frame :: outer).flatMap Frame.brackets) ∨
      ∃ shape, lexed.frames.flatMap Frame.brackets =
          s.openHere shape :: (frame :: outer).flatMap Frame.brackets ∧
        (lexed.kind, c :: t.take lexed.more) = (shape.kind, [shape.opener]) := by
  have houter : (outer.flatMap Frame.brackets).Sublist ((frame :: outer).flatMap Frame.brackets) :=
    List.sublist_append_right _ _
  have hwith : ∀ {bs : List OpenBracket}, bs.Sublist frame.brackets →
      ((frame.withBrackets bs :: outer).flatMap Frame.brackets).Sublist
        ((frame :: outer).flatMap Frame.brackets) := by
    intro bs hbs
    refine List.Sublist.append ?_ (List.Sublist.refl _)
    cases frame with
    | quote => exact List.Sublist.refl _
    | «variable» _ | block _ _ | interpolation _ => exact hbs
  cases h with
  | endQuote _ _ => exact .inl houter
  | interpolate hquote _ _ => exact .inl (hquote ▸ List.Sublist.refl _)
  | literal hquote _ _ => exact .inl (hquote ▸ List.Sublist.refl _)
  | close _ => exact .inl houter
  | read hframe _ hread =>
    have hopen : ∀ shape, (frame.withBrackets (s.openHere shape :: frame.brackets) ::
        outer).flatMap Frame.brackets =
          s.openHere shape :: (frame :: outer).flatMap Frame.brackets := by
      intro shape
      cases frame with
      | quote => exact absurd rfl hframe
      | «variable» _ | block _ _ | interpolation _ => rfl
    cases hread with
    | layout | spread | arrow | operator | number | string | quote => exact .inl (List.Sublist.refl _)
    | name _ _ _ =>
      unfold nameLexed
      split <;> exact .inl (List.Sublist.refl _)
    | punctuation _ _ _ _ hpunct =>
      cases Marks.of_ok hpunct with
      | question hc => exact .inr ⟨.ternary, hopen _, by rw [hc]; rfl⟩
      | opener hshape =>
        refine .inr ⟨_, hopen _, ?_⟩
        rcases BracketShape.ofOpener?_eq_some_iff.1 hshape with ⟨rfl, rfl⟩ | ⟨rfl, rfl⟩ | ⟨rfl, rfl⟩ <;>
          rfl
      | answer _ _ hbs => exact .inl (hwith (hbs ▸ List.sublist_cons_self _ _))
      | comma _ => exact .inl (hwith (List.dropWhile_sublist _))
      | closer _ hbs =>
        have hdrop := List.dropWhile_sublist (l := frame.brackets) (·.shape == .ternary)
        rw [← dropTernaries, hbs] at hdrop
        exact .inl (hwith ((List.sublist_cons_self _ _).trans hdrop))
      | colon _ _ | other _ => exact .inl (List.Sublist.refl _)

/-- What holds of the brackets that are open, and of any that opens here, holds of those that are
    open behind the next lexeme. -/
theorem Inside.brackets {P : OpenBracket → Prop} (h : Inside s table frame outer c t lexed)
    (hold : ∀ g ∈ frame :: outer, ∀ b ∈ g.brackets, P b) (hnew : ∀ shape, P (s.openHere shape)) :
    ∀ g ∈ lexed.frames, ∀ b ∈ g.brackets, P b := by
  intro g hg b hb
  have hmem : b ∈ lexed.frames.flatMap Frame.brackets := List.mem_flatMap.2 ⟨g, hg, hb⟩
  have hall : ∀ b ∈ (frame :: outer).flatMap Frame.brackets, P b := by
    intro b hb
    obtain ⟨g, hg, hb⟩ := List.mem_flatMap.1 hb
    exact hold g hg b hb
  rcases h.stack with hsub | ⟨shape, heq, -⟩
  · exact hall b (hsub.subset hmem)
  · rw [heq] at hmem
    rcases List.mem_cons.1 hmem with rfl | hmem
    · exact hnew shape
    · exact hall b hmem
theorem Data.brackets {verbatim verbatim' : Bool} {new : List Lexeme} {frames : List Frame}
    (h : Data verbatim t new frames verbatim' rest) : ∀ g ∈ frames, g.brackets = [] := by
  cases h with
  | text _ | comment _ _ => exact nofun
  | «variable» _ | block _ => exact List.forall_mem_singleton.2 rfl

/-- The line of an open bracket is that of the place where its token stands. -/
def Dated (s : Lexer) : Prop :=
  ∀ g ∈ s.frames, ∀ b ∈ g.brackets, b.index ≤ s.emitted.length ∧
    b.line = (placeBehind Position.start (s.emitted.take b.index)).line

theorem Dated.step (h : s.Dated) (hplaced : s.Placed)
    (hstep : s.step table c t = .ok (s', rest)) : s'.Dated := by
  obtain ⟨hframes, hstep⟩ | ⟨frame, outer, lexed, hframes, hlexed, rfl, -⟩ := step_cases hstep
  · obtain ⟨new, hdata, -⟩ := data_of_ok hframes hstep
    intro g hg b hb
    rw [hdata.brackets g hg] at hb
    cases hb
  · unfold Dated at h ⊢
    rw [hframes] at h
    rw [take_frames, emitted_take]
    -- What was emitted stays in front of what comes now.
    have hkept : ∀ b : OpenBracket, (b.index ≤ s.emitted.length ∧
        b.line = (placeBehind Position.start (s.emitted.take b.index)).line) →
        b.index ≤ (s.emitted ++ [(lexed.kind, c :: t.take lexed.more)]).length ∧
        b.line = (placeBehind Position.start
          ((s.emitted ++ [(lexed.kind, c :: t.take lexed.more)]).take b.index)).line := by
      intro b hb
      rw [List.take_append_of_le_length hb.1, List.length_append]
      exact ⟨Nat.le_add_right_of_le hb.1, hb.2⟩
    refine hlexed.brackets ?_ ?_
    · intro g hg b hb
      exact hkept b (h g hg b hb)
    · intro shape
      have hlength : s.tokens.size = s.emitted.length := by simp [emitted]
      apply hkept
      refine ⟨Nat.le_of_eq hlength, ?_⟩
      have hindex : (s.openHere shape).index = s.emitted.length := hlength
      rw [hindex, List.take_length, ← hplaced.next]
      rfl

/-! ### Everything up to the failure -/

/-- The lexer has read a source up to `rest`. -/
structure Reached (source : List Char) (s : Lexer) (rest : List Char) : Prop where
  text : source = spell s.emitted ++ rest
  unsplit : Unsplit s.emitted rest
  placed : s.Placed
  paired : s.Paired
  dated : s.Dated

theorem Reached.step (h : Reached source s (c :: t)) (hstep : s.step table c t = .ok (s', rest)) :
    Reached source s' rest := by
  obtain ⟨new, hnew, htext, -⟩ := step_emits hstep
  obtain ⟨new', hnew', hunsplit⟩ := step_unsplit hstep
  obtain rfl : new = new' := List.append_cancel_left (hnew.symm.trans hnew')
  refine ⟨?_, ?_, h.placed.step hstep, h.paired.step hstep, h.dated.step h.placed hstep⟩
  · rw [h.text, hnew, spell_append, List.append_assoc, htext]
  · rw [hnew]
    refine unsplit_append.2 ⟨?_, hunsplit⟩
    rw [htext]
    exact h.unsplit

theorem Reached.run (h : Reached source s t) (hrun : run table s t = .ok s') :
    Reached source s' [] := by
  exact run_keeps (P := fun s rest => Reached source s rest) Reached.step h hrun

theorem Reached.run_error (h : Reached source s t) (hrun : Lexer.run table s t = .error f) :
    ∃ s' c u, Reached source s' (c :: u) ∧ s'.step table c u = .error f := by
  fun_induction Lexer.run table s t with
  | case1 s => cases hrun
  | case2 s c t e hstep =>
    cases hrun
    exact ⟨s, c, t, h, hstep⟩
  | case3 s c t s₁ rest hstep ih => exact ih (h.step hstep) hrun

theorem reached_init (source : List Char) : Reached source {} source :=
  ⟨rfl, trivial, placed_init, paired_init, nofun⟩

theorem reached_error {e : LexError} (h : tokenize table source = .error e) :
    ∃ f, scan table source = .error f ∧ f.error = e ∧
      ((∃ s c u, Reached source s (c :: u) ∧ s.step table c u = .error f) ∨
        ∃ s, Reached source s [] ∧ s.finish = .error f) := by
  have hinit := reached_init source
  unfold tokenize at h
  split at h
  · cases h
  · rename_i f hscan
    cases h
    refine ⟨f, hscan, rfl, ?_⟩
    unfold scan at hscan
    split at hscan
    · rename_i hrun
      cases hscan
      exact .inl (hinit.run_error hrun)
    · rename_i s hrun
      exact .inr ⟨s, hinit.run hrun, hscan⟩

end Lexer

/-- The line behind some tokens that start the file. -/
def lineBehind (ts : List Token) : Nat := 1 + lineBreakCount (spell (ts.map Token.lexeme))

/-- What a failure says of the tokens in front of it and of the text behind them. -/
inductive Located (ts : List Token) (rest : List Char) : LexError → Prop
  | character {c : Char} {u : List Char} (hrest : rest = c :: u) :
    Located ts rest (.unexpectedCharacter c (lineBehind ts))
  | comment {before : List Token} {a : Token} (hts : ts = before ++ [a])
      (hkind : a.kind = .commentStart) (hline : a.line = lineBehind before)
      (hrest : ¬['#', '\x7d'] <:+: rest) :
    Located ts rest (.unclosedComment a.line)
  /-- A bracket is closed, and what is open innermost is a construct. -/
  | closed {c : Char} {u : List Char} {shape : BracketShape} {a : Token} (hrest : rest = c :: u)
      (hc : BracketShape.ofCloser? c = some shape) (hopen : (stillOpen ts.reverse).head? = some a)
      (hno : a.opensBracket = false) :
    Located ts rest (.unclosedBracket c (lineBehind ts))
  /-- What is open innermost is a bracket, and one of another shape is closed. -/
  | mismatched {c b : Char} {u : List Char} {shape shape' : BracketShape}
      {before after : List Token} {a : Token} (hrest : rest = c :: u)
      (hc : BracketShape.ofCloser? c = some shape) (hts : ts = before ++ a :: after)
      (hopen : (stillOpen ts.reverse).head? = some a)
      (hopens : a.Opens shape') (hne : shape' ≠ shape) (hvalue : a.value = [b])
      (hline : a.line = lineBehind before) :
    Located ts rest (.unclosedBracket b a.line)
  | ended {frame : Frame} {a : Token} (hrest : rest = [])
      (hopen : innermostConstruct? ts = some a) (hkind : a.kind = frame.start) :
    Located ts rest (.unexpectedEnd frame (lineBehind ts))

/-- The tokens up to a failure spell the source up to the place that it tells. -/
def LexFailure.LocatedIn (f : LexFailure) (source : List Char) : Prop :=
  ∃ rest, source = spell f.lexer.emitted ++ rest ∧ Located f.lexer.tokens.toList rest f.error

namespace Lexer

variable {s : Lexer} {table : OperatorTable} {frame : Frame} {outer : List Frame} {c : Char}
  {t rest source : List Char} {e : LexError} {f : LexFailure}

theorem line_eq_lineBehind (hplaced : s.Placed) (hunsplit : Unsplit s.emitted rest) :
    s.position.line = lineBehind s.tokens.toList := by
  rw [hplaced.next, placeBehind_eq hunsplit, Position.start_after]
  rfl

theorem token_line {before after : List Token} {a : Token} (hplaced : s.Placed)
    (hunsplit : Unsplit s.emitted rest) (hts : s.tokens.toList = before ++ a :: after) :
    a.line = (placeBehind Position.start (s.emitted.take before.length)).line ∧
      a.line = lineBehind before := by
  have hget : s.tokens[before.length]? = some a := by
    rw [← Array.getElem?_toList, hts]
    simp
  have hemitted : s.emitted = before.map Token.lexeme ++ (a :: after).map Token.lexeme := by
    rw [emitted, hts, List.map_append]
  have htake : s.emitted.take before.length = before.map Token.lexeme := by
    rw [hemitted]
    exact List.take_left' (List.length_map _)
  have hposition := hplaced.tokens _ _ hget
  refine ⟨congrArg Position.line hposition, ?_⟩
  rw [hemitted] at hunsplit
  rw [htake, placeBehind_eq (unsplit_append.1 hunsplit).1, Position.start_after] at hposition
  exact congrArg Position.line hposition

theorem Paired.cons (h : s.Paired) (hframes : s.frames = frame :: outer) :
    Pending (openBrackets frame.brackets ++ frame.enclosure :: openings outer) s.tokens.toList := by
  unfold Paired at h
  rwa [hframes, openings_cons, Frame.openings, List.append_assoc, List.singleton_append] at h

theorem Reached.fails (h : Reached source s (c :: t)) (hframes : s.frames = frame :: outer)
    (hfails : Fails s frame c e) : Located s.tokens.toList (c :: t) e := by
  have hline := line_eq_lineBehind h.placed h.unsplit
  have hpending := h.paired.cons hframes
  rw [← openBrackets_dropTernaries] at hpending
  cases hfails with
  | character =>
    rw [hline]
    exact .character rfl
  | closed hc hbs =>
    rw [hbs] at hpending
    obtain ⟨before, a, after, -, -, hby, hopen⟩ := hpending.stillOpen_cons
    rw [hline]
    exact .closed rfl hc (by rw [hopen, List.head?_cons]) (Frame.opensBracket_of_openedBy hby)
  | @mismatched shape b bs hc hbs hne =>
    rw [hbs, openBrackets_cons (shape_ne_of_dropTernaries hbs)] at hpending
    obtain ⟨before, a, after, hts, -, ⟨hopens, hindex⟩, hopen⟩ := hpending.stillOpen_cons
    obtain ⟨hplace, hbefore⟩ := token_line h.placed h.unsplit hts
    have hdate : b.line = a.line := by
      have hmem : b ∈ frame.brackets := by
        apply mem_of_mem_dropTernaries
        rw [hbs]
        exact List.mem_cons_self
      have hframe : frame ∈ s.frames := by
        rw [hframes]
        exact List.mem_cons_self
      rw [(h.dated frame hframe b hmem).2, hplace, hindex]
    rw [hdate]
    exact .mismatched rfl hc hts (by rw [hopen, List.head?_cons]) hopens hne hopens.value hbefore

theorem Reached.data_error (h : Reached source s t) (hdata : s.data t = .error f) :
    f.LocatedIn source := by
  obtain ⟨before, value, after, hfind, hbody, rfl⟩ := Lexer.data_error hdata
  obtain ⟨htext, -⟩ := Delimiter.find_append hfind
  have hhead : (value ++ after).head? ≠ some '\n' := by
    obtain ⟨d, marker, rfl, -, -⟩ := Delimiter.at?_eq_some_iff.1 (Delimiter.find_found hfind).1
    exact nofun
  have hunsplit : Unsplit (s.emitAll (textLexemes before)).emitted (value ++ after) := by
    rw [emitted_emitAll]
    refine unsplit_append.2 ⟨?_, Lexeme.followed_layoutPieces
      (fun _ c t => Lexeme.layoutAt_unsplit c t hhead) _ _⟩
    rw [spell_textLexemes, htext]
    exact h.unsplit
  refine ⟨after, ?_, ?_⟩
  · simp [h.text, ← htext]
  · exact .comment (toList_emit ..) rfl (line_eq_lineBehind (h.placed.emitAll _) hunsplit)
      (Delimiter.not_infix_of_commentBody? hbody)

theorem Reached.step_error (h : Reached source s (c :: t)) (hstep : s.step table c t = .error f) :
    f.LocatedIn source := by
  unfold Lexer.step at hstep
  split at hstep
  · exact h.data_error hstep
  · rename_i frame outer hframes
    split at hstep
    · rename_i e hinside
      cases hstep
      exact ⟨c :: t, h.text, h.fails hframes (.of_inside hinside)⟩
    · cases hstep

theorem Reached.finish_error (h : Reached source s []) (hfinish : s.finish = .error f) :
    f.LocatedIn source := by
  unfold Lexer.finish at hfinish
  simp only [emit_frames] at hfinish
  split at hfinish
  · cases hfinish
  · rename_i frame outer hframes
    cases hfinish
    obtain ⟨a, hopen, hkind⟩ := (h.paired.cons hframes).innermostConstruct
    refine ⟨[], ?_, ?_⟩
    · simp [h.text]
    · have hunsplit : Unsplit (s.emit .eof []).emitted [] := by
        rw [emitted_emit]
        exact unsplit_append.2 ⟨h.unsplit, unsplit_singleton (by decide) _⟩
      rw [line_eq_lineBehind (h.placed.emit .eof []) hunsplit]
      refine .ended rfl ?_ hkind
      rw [toList_emit, innermostConstruct?, List.reverse_append, List.reverse_singleton,
        List.singleton_append, stillOpen_stay rfl rfl]
      exact hopen

end Lexer

/-- The failure of a source that cannot be cut. -/
def lexError? (table : OperatorTable) (source : List Char) : Option LexError :=
  match tokenize table source with
  | .ok _ => none
  | .error e => some e

theorem tokenize_of_lexError? {table : OperatorTable} {source : List Char} {e : LexError}
    (h : lexError? table source = some e) : tokenize table source = .error e := by
  unfold lexError? at h
  split at h
  · cases h
  · rename_i heq
    cases h
    exact heq

/-- **A failure is located where cutting stopped.** The tokens so far spell the source up to there,
    and the failure names the character, the bracket or the construct in which it stopped, with its
    line. -/
theorem tokenize_error_located {table : OperatorTable} {source : List Char} {e : LexError}
    (h : tokenize table source = .error e) :
    ∃ f, Lexer.scan table source = .error f ∧ f.error = e ∧ f.LocatedIn source := by
  obtain ⟨f, hscan, herror, ⟨s, c, u, hreached, hstep⟩ | ⟨s, hreached, hfinish⟩⟩ :=
    Lexer.reached_error h
  · exact ⟨f, hscan, herror, hreached.step_error hstep⟩
  · exact ⟨f, hscan, herror, hreached.finish_error hfinish⟩

/-- A ternary does not hide the bracket on the second line, which a bracket of another shape
    closes. -/
theorem tokenize_error_located_ternary :
    tokenize OperatorTable.default "\x7b\x7b f(\n[a ? b) \x7d\x7d".toList =
        .error (.unclosedBracket '[' 2) ∧
      ∃ f, Lexer.scan OperatorTable.default "\x7b\x7b f(\n[a ? b) \x7d\x7d".toList = .error f ∧
        f.error = .unclosedBracket '[' 2 ∧
        f.LocatedIn "\x7b\x7b f(\n[a ? b) \x7d\x7d".toList := by
  have hfails : tokenize OperatorTable.default "\x7b\x7b f(\n[a ? b) \x7d\x7d".toList =
      .error (.unclosedBracket '[' 2) := tokenize_of_lexError? (by decide +kernel)
  exact ⟨hfails, tokenize_error_located hfails⟩

end TwigStyle
