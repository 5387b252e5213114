import TwigStyle.Template.Lexer

/-!
# What a step can read

`Lexer.Reading` lists the lexemes an expression can go on with, in the order in which they are
tried, each with all the conditions under which it is taken.  `expression_eq_ok_iff` says that the
list is complete, so later proofs take a lexeme apart by its constructor and never unfold
`Lexer.expression`.

`Lexer.Inside` adds the parts of a string and the ends of the constructs, and
`inside_eq_ok_iff` says the same of it.
-/

namespace TwigStyle

namespace BracketShape

variable {c : Char} {shape : BracketShape}

theorem ofOpener?_eq_some_iff : ofOpener? c = some shape ↔
    (c = '(' ∧ shape = round) ∨ (c = '[' ∧ shape = square) ∨ (c = '\x7b' ∧ shape = curly) := by
  constructor
  · intro h
    unfold ofOpener? at h
    repeat' split at h
    all_goals simp_all
  · rintro (⟨rfl, rfl⟩ | ⟨rfl, rfl⟩ | ⟨rfl, rfl⟩) <;> rfl

theorem ofCloser?_eq_some_iff : ofCloser? c = some shape ↔
    (c = ')' ∧ shape = round) ∨ (c = ']' ∧ shape = square) ∨ (c = '\x7d' ∧ shape = curly) := by
  constructor
  · intro h
    unfold ofCloser? at h
    repeat' split at h
    all_goals simp_all
  · rintro (⟨rfl, rfl⟩ | ⟨rfl, rfl⟩ | ⟨rfl, rfl⟩) <;> rfl

theorem ofOpener?_ne_ternary (h : ofOpener? c = some shape) : shape ≠ .ternary := by
  rcases ofOpener?_eq_some_iff.1 h with ⟨-, rfl⟩ | ⟨-, rfl⟩ | ⟨-, rfl⟩ <;> exact nofun

theorem ofCloser?_ne_ternary (h : ofCloser? c = some shape) : shape ≠ .ternary := by
  rcases ofCloser?_eq_some_iff.1 h with ⟨-, rfl⟩ | ⟨-, rfl⟩ | ⟨-, rfl⟩ <;> exact nofun

end BracketShape

/-- The end of a construct at the start of a text: its kind and its length.  An open bracket keeps
    a construct from ending, and a string ends in its own way. -/
def Frame.endAt? (frame : Frame) (t : List Char) : Option (TokenKind × Nat) :=
  if hasOpenBracket frame.brackets then none
  else
    match frame with
    | .variable _ => (Delimiter.variableEndLength? t).map (TokenKind.variableEnd, ·)
    | .block _ _ => (Delimiter.blockEndLength? t).map (TokenKind.blockEnd, ·)
    | .interpolation _ => if t.head? == some '\x7d' then some (.interpolationEnd, 1) else none
    | .quote => none

namespace Lexer

variable {s : Lexer} {table : OperatorTable} {frame : Frame} {outer : List Frame} {c : Char}
  {t : List Char} {lexed : Lexed}

/-- No layout, no spread and no arrow starts at `c :: t`. -/
structure Plain (c : Char) (t : List Char) : Prop where
  solid : Text.isLayout c = false
  noSpread : Text.after? "...".toList (c :: t) = none
  noArrow : Text.after? "=>".toList (c :: t) = none

/-- The lexeme at `c :: t` in the expression of `frame`. -/
inductive Reading (s : Lexer) (table : OperatorTable) (frame : Frame) (outer : List Frame)
    (c : Char) (t : List Char) : Lexed → Prop
  | layout (hc : Text.isLayout c = true) :
    Reading s table frame outer c t
      ⟨(Lexeme.layoutAt c t).1.codeKind, (Lexeme.layoutAt c t).2, frame :: outer, none⟩
  | spread {rest : List Char} (hc : Text.isLayout c = false)
      (h : Text.after? "...".toList (c :: t) = some rest) :
    Reading s table frame outer c t ⟨.spread, 2, frame :: outer, none⟩
  | arrow {rest : List Char} (hc : Text.isLayout c = false)
      (hspread : Text.after? "...".toList (c :: t) = none)
      (h : Text.after? "=>".toList (c :: t) = some rest) :
    Reading s table frame outer c t ⟨.arrow, 1, frame :: outer, none⟩
  | operator {more : Nat} (hplain : Plain c t) (h : s.operator? table c t = some more) :
    Reading s table frame outer c t ⟨.operator, more, frame :: outer, none⟩
  | name (hplain : Plain c t) (hop : s.operator? table c t = none)
      (h : Lexeme.startsName c = true) :
    Reading s table frame outer c t (nameLexed frame outer c t)
  | number (hplain : Plain c t) (hop : s.operator? table c t = none)
      (hname : Lexeme.startsName c = false) (h : c.isDigit = true) :
    Reading s table frame outer c t
      ⟨.number, Lexeme.numberLength (c :: t) - 1, frame :: outer, none⟩
  | punctuation {lexed : Lexed} (hplain : Plain c t) (hop : s.operator? table c t = none)
      (hname : Lexeme.startsName c = false) (hdigit : c.isDigit = false)
      (h : s.punctuation? frame outer c = some (.ok lexed)) :
    Reading s table frame outer c t lexed
  | string {more : Nat} (hplain : Plain c t) (hop : s.operator? table c t = none)
      (hc : c = '\'') (h : Lexeme.singleQuotedLength? t = some more) :
    Reading s table frame outer c t ⟨.string, more, frame :: outer, none⟩
  | quote (hplain : Plain c t) (hop : s.operator? table c t = none) (hc : c = '"') :
    Reading s table frame outer c t ⟨.quoteStart, 0, .quote :: frame :: outer, none⟩

theorem layout?_of_isLayout (hc : Text.isLayout c = true) :
    layout? c t = some ((Lexeme.layoutAt c t).1.codeKind, (Lexeme.layoutAt c t).2) := by
  simp only [layout?, hc, if_true]

theorem layout?_of_solid (hc : Text.isLayout c = false) : layout? c t = none := by
  simp only [layout?, hc, Bool.false_eq_true, if_false]

theorem Reading.of_expression (h : s.expression table frame outer c t = .ok lexed) :
    Reading s table frame outer c t lexed := by
  by_cases hc : Text.isLayout c = true
  · simp only [expression, layout?_of_isLayout hc, Except.ok.injEq] at h
    rw [← h]
    exact .layout hc
  · have hsolid : Text.isLayout c = false := Bool.eq_false_iff.2 hc
    simp only [expression, layout?_of_solid hsolid] at h
    split at h
    · rename_i hspread
      obtain ⟨rest, hrest⟩ := Option.isSome_iff_exists.1 hspread
      cases h
      exact .spread hsolid hrest
    · rename_i hspread
      have hspread : Text.after? "...".toList (c :: t) = none := by simpa using hspread
      split at h
      · rename_i harrow
        obtain ⟨rest, hrest⟩ := Option.isSome_iff_exists.1 harrow
        cases h
        exact .arrow hsolid hspread hrest
      · rename_i harrow
        have harrow : Text.after? "=>".toList (c :: t) = none := by simpa using harrow
        have hplain : Plain c t := ⟨hsolid, hspread, harrow⟩
        split at h
        · rename_i more hop
          cases h
          exact .operator hplain hop
        · rename_i hop
          split at h
          · rename_i hname
            cases h
            exact .name hplain hop hname
          · rename_i hname
            have hname : Lexeme.startsName c = false := Bool.eq_false_iff.2 hname
            split at h
            · rename_i hdigit
              cases h
              exact .number hplain hop hname hdigit
            · rename_i hdigit
              have hdigit : c.isDigit = false := Bool.eq_false_iff.2 hdigit
              split at h
              · rename_i result hpunct
                rw [h] at hpunct
                exact .punctuation hplain hop hname hdigit hpunct
              · split at h
                · rename_i hquote
                  split at h
                  · rename_i more hmore
                    cases h
                    exact .string hplain hop (eq_of_beq hquote) hmore
                  · cases h
                · split at h
                  · rename_i hquote
                    cases h
                    exact .quote hplain hop (eq_of_beq hquote)
                  · cases h

theorem Reading.expression_eq (h : Reading s table frame outer c t lexed) :
    s.expression table frame outer c t = .ok lexed := by
  cases h with
  | layout hc => simp only [expression, layout?_of_isLayout hc]
  | spread hc h => simp only [expression, layout?_of_solid hc, h, Option.isSome_some, if_true]
  | arrow hc hspread h =>
    simp only [expression, layout?_of_solid hc, hspread, h, Option.isSome_some, Option.isSome_none,
      Bool.false_eq_true, if_false, if_true]
  | operator hplain h =>
    simp only [expression, layout?_of_solid hplain.solid, hplain.noSpread, hplain.noArrow, h,
      Option.isSome_none, Bool.false_eq_true, if_false]
  | name hplain hop h =>
    simp only [expression, layout?_of_solid hplain.solid, hplain.noSpread, hplain.noArrow, hop, h,
      Option.isSome_none, Bool.false_eq_true, if_false, if_true]
  | number hplain hop hname h =>
    simp only [expression, layout?_of_solid hplain.solid, hplain.noSpread, hplain.noArrow, hop,
      hname, h, Option.isSome_none, Bool.false_eq_true, if_false, if_true]
  | punctuation hplain hop hname hdigit h =>
    simp only [expression, layout?_of_solid hplain.solid, hplain.noSpread, hplain.noArrow, hop,
      hname, hdigit, h, Option.isSome_none, Bool.false_eq_true, if_false]
  | string hplain hop hc h =>
    subst hc
    have hpunct : s.punctuation? frame outer '\'' = none := rfl
    simp only [expression, layout?_of_solid hplain.solid, hplain.noSpread, hplain.noArrow, hop,
      hpunct, h, Option.isSome_none, Bool.false_eq_true, if_false]
    rfl
  | quote hplain hop hc =>
    subst hc
    have hpunct : s.punctuation? frame outer '"' = none := rfl
    simp only [expression, layout?_of_solid hplain.solid, hplain.noSpread, hplain.noArrow, hop,
      hpunct, Option.isSome_none, Bool.false_eq_true, if_false]
    rfl

/-- The readings of an expression are exactly its lexemes. -/
theorem expression_eq_ok_iff :
    s.expression table frame outer c t = .ok lexed ↔ Reading s table frame outer c t lexed :=
  ⟨Reading.of_expression, Reading.expression_eq⟩

/-! ### Inside of a construct -/

/-- The lexeme at `c :: t` inside the construct of `frame`. -/
inductive Inside (s : Lexer) (table : OperatorTable) (frame : Frame) (outer : List Frame)
    (c : Char) (t : List Char) : Lexed → Prop
  | endQuote (hframe : frame = .quote) (hc : c = '"') :
    Inside s table frame outer c t ⟨.quoteEnd, 0, outer, none⟩
  | interpolate (hframe : frame = .quote) (hc : c = '#') (ht : t.head? = some '\x7b') :
    Inside s table frame outer c t
      ⟨.interpolationStart, 1, .interpolation [] :: .quote :: outer, none⟩
  | literal (hframe : frame = .quote) (hc : c ≠ '"') (ht : ¬(c = '#' ∧ t.head? = some '\x7b')) :
    Inside s table frame outer c t
      ⟨.string, Lexeme.literalLength (c :: t) - 1, .quote :: outer, none⟩
  | close {kind : TokenKind} {n : Nat} (hend : frame.endAt? (c :: t) = some (kind, n)) :
    Inside s table frame outer c t ⟨kind, n - 1, outer, none⟩
  | read {lexed : Lexed} (hframe : frame ≠ .quote) (hend : frame.endAt? (c :: t) = none)
      (h : Reading s table frame outer c t lexed) :
    Inside s table frame outer c t lexed

/-- Outside of strings a construct ends if it can, and is read on otherwise. -/
theorem inside_of_ne_quote (hframe : frame ≠ .quote) :
    s.inside table frame outer c t =
      match frame.endAt? (c :: t) with
      | some (kind, n) => .ok ⟨kind, n - 1, outer, none⟩
      | none => s.expression table frame outer c t := by
  cases frame with
  | quote => exact absurd rfl hframe
  | «variable» bs =>
    cases hopen : hasOpenBracket bs <;>
      cases hlen : Delimiter.variableEndLength? (c :: t) <;>
      simp [inside, Frame.endAt?, Frame.brackets, hopen, hlen]
  | block name bs =>
    cases hopen : hasOpenBracket bs <;>
      cases hlen : Delimiter.blockEndLength? (c :: t) <;>
      simp [inside, Frame.endAt?, Frame.brackets, hopen, hlen]
  | interpolation bs =>
    cases hopen : hasOpenBracket bs <;> by_cases hc : c = '\x7d' <;>
      simp [inside, Frame.endAt?, Frame.brackets, hopen, hc]

theorem inside_eq_ok_iff :
    s.inside table frame outer c t = .ok lexed ↔ Inside s table frame outer c t lexed := by
  by_cases hframe : frame = .quote
  · subst hframe
    simp only [inside]
    constructor
    · intro h
      split at h
      · rename_i hc
        cases h
        exact .endQuote rfl (eq_of_beq hc)
      · rename_i hc
        have hc : c ≠ '"' := by simpa using hc
        split at h
        · rename_i hstart
          simp only [Bool.and_eq_true, beq_iff_eq] at hstart
          cases h
          exact .interpolate rfl hstart.1 hstart.2
        · rename_i hstart
          simp only [Bool.and_eq_true, beq_iff_eq] at hstart
          cases h
          exact .literal rfl hc hstart
    · intro h
      cases h with
      | endQuote _ hc => simp [hc]
      | interpolate _ hc ht => simp [hc, ht]
      | literal _ hc ht => simp [hc, ht]
      | close hend => simp [Frame.endAt?] at hend
      | read hne _ _ => exact absurd rfl hne
  · rw [inside_of_ne_quote hframe]
    constructor
    · intro h
      split at h
      · rename_i kind n hend
        cases h
        exact .close hend
      · rename_i hend
        exact .read hframe hend (Reading.of_expression h)
    · intro h
      cases h with
      | endQuote hq _ => exact absurd hq hframe
      | interpolate hq _ _ => exact absurd hq hframe
      | literal hq _ _ => exact absurd hq hframe
      | close hend => rw [hend]
      | read _ hend h => rw [hend]; exact h.expression_eq

/-! ### Kinds -/

/-- The marks that punctuation can be, and what they do to what is open. -/
inductive Marks (s : Lexer) (frame : Frame) (outer : List Frame) (c : Char) : Lexed → Prop
  | question (hc : c = '?') :
    Marks s frame outer c
      ⟨.operator, 0, frame.withBrackets (s.openHere .ternary :: frame.brackets) :: outer, none⟩
  | answer {b : OpenBracket} {bs : List OpenBracket} (hc : c = ':') (hb : b.shape = .ternary)
      (hbs : frame.brackets = b :: bs) :
    Marks s frame outer c ⟨.operator, 0, frame.withBrackets bs :: outer, none⟩
  | colon (hc : c = ':') (hbs : ∀ b ∈ frame.brackets.head?, b.shape ≠ .ternary) :
    Marks s frame outer c ⟨.punctuation, 0, frame :: outer, none⟩
  | comma (hc : c = ',') :
    Marks s frame outer c
      ⟨.punctuation, 0, frame.withBrackets (dropTernaries frame.brackets) :: outer, none⟩
  | other (hc : c = '.' ∨ c = '|') :
    Marks s frame outer c ⟨.punctuation, 0, frame :: outer, none⟩
  | opener {shape : BracketShape} (h : BracketShape.ofOpener? c = some shape) :
    Marks s frame outer c
      ⟨.punctuation, 0, frame.withBrackets (s.openHere shape :: frame.brackets) :: outer, none⟩
  | closer {b : OpenBracket} {bs : List OpenBracket}
      (h : BracketShape.ofCloser? c = some b.shape) (hbs : dropTernaries frame.brackets = b :: bs) :
    Marks s frame outer c ⟨.punctuation, 0, frame.withBrackets bs :: outer, some b.index⟩

theorem Marks.of_ok (h : s.punctuation? frame outer c = some (.ok lexed)) :
    Marks s frame outer c lexed := by
  unfold punctuation? at h
  simp only at h
  split at h
  · rename_i hc
    cases h
    exact .question (eq_of_beq hc)
  split at h
  · rename_i hc
    split at h
    · rename_i hbs
      cases h
      exact .answer (eq_of_beq hc) rfl hbs
    · rename_i hbs
      cases h
      refine .colon (eq_of_beq hc) fun b hb hshape => ?_
      obtain ⟨rest, hrest⟩ := List.head?_eq_some_iff.1 hb
      exact hbs b.index b.line rest (by rw [hrest, ← hshape])
  split at h
  · rename_i hc
    cases h
    exact .comma (eq_of_beq hc)
  split at h
  · rename_i hc
    cases h
    exact .other (by simpa using hc)
  split at h
  · rename_i hshape
    cases h
    exact .opener hshape
  · rename_i shape _ hcloser
    simp only [Option.some.injEq] at h
    unfold Lexer.closer at h
    split at h
    · cases h
    · rename_i hbs
      split at h
      · rename_i hshape
        cases h
        exact .closer (hshape ▸ hcloser) hbs
      · cases h
  · cases h

theorem Marks.ok (h : Marks s frame outer c lexed) :
    s.punctuation? frame outer c = some (.ok lexed) := by
  cases h with
  | question hc | comma hc =>
    subst hc
    rfl
  | @answer b bs hc hb hbs =>
    obtain ⟨shape, i, line⟩ := b
    cases hb
    subst hc
    simp [punctuation?, hbs]
  | colon hc hbs =>
    subst hc
    rcases hbrackets : frame.brackets with _ | ⟨⟨shape, i, line⟩, bs⟩
    · simp [punctuation?, hbrackets]
    · have hshape := hbs ⟨shape, i, line⟩ (by rw [hbrackets]; rfl)
      cases shape with
      | ternary => exact absurd rfl hshape
      | round | square | curly => simp [punctuation?, hbrackets]
  | other hc => rcases hc with rfl | rfl <;> rfl
  | opener h =>
    rcases BracketShape.ofOpener?_eq_some_iff.1 h with ⟨rfl, rfl⟩ | ⟨rfl, rfl⟩ | ⟨rfl, rfl⟩ <;> rfl
  | @closer b bs h hbs =>
    have hcloser : s.closer frame outer c b.shape =
        .ok ⟨.punctuation, 0, frame.withBrackets bs :: outer, some b.index⟩ := by
      simp [Lexer.closer, hbs]
    rw [← hcloser]
    rcases BracketShape.ofCloser?_eq_some_iff.1 h with ⟨rfl, hb⟩ | ⟨rfl, hb⟩ | ⟨rfl, hb⟩ <;>
      rw [hb] <;> rfl

theorem punctuation?_ok (h : s.punctuation? frame outer c = some (.ok lexed)) :
    (lexed.kind = .punctuation ∨ lexed.kind = .operator) ∧ lexed.more = 0 := by
  cases Marks.of_ok h with
  | question | answer => exact ⟨.inr rfl, rfl⟩
  | colon | comma | other | opener | closer => exact ⟨.inl rfl, rfl⟩

theorem nameLexed_kind (frame : Frame) (outer : List Frame) (c : Char) (t : List Char) :
    (nameLexed frame outer c t).kind = .name ∨ (nameLexed frame outer c t).kind = .blockName := by
  unfold nameLexed
  split
  · exact .inr rfl
  · exact .inl rfl

theorem nameLexed_more (frame : Frame) (outer : List Frame) (c : Char) (t : List Char) :
    (nameLexed frame outer c t).more = Lexeme.runLength Lexeme.continuesName t := by
  unfold nameLexed
  split <;> rfl

theorem endAt?_kind {kind : TokenKind} {n : Nat} (h : frame.endAt? t = some (kind, n)) :
    kind = .variableEnd ∨ kind = .blockEnd ∨ kind = .interpolationEnd := by
  unfold Frame.endAt? at h
  split at h
  · cases h
  · split at h
    · obtain ⟨_, _, hpair⟩ := Option.map_eq_some_iff.1 h
      cases hpair
      exact .inl rfl
    · obtain ⟨_, _, hpair⟩ := Option.map_eq_some_iff.1 h
      cases hpair
      exact .inr (.inl rfl)
    · split at h
      · cases h
        exact .inr (.inr rfl)
      · cases h
    · cases h

/-- The kinds that expressions are made of. -/
def expressionKinds : List TokenKind :=
  [.spaces, .tabs, .lineBreak, .spread, .arrow, .operator, .name, .blockName, .number,
    .punctuation, .string, .quoteStart]

theorem Reading.kind_mem (h : Reading s table frame outer c t lexed) :
    lexed.kind ∈ expressionKinds := by
  cases h with
  | layout hc =>
    simp only [Text.isLayout, Bool.or_eq_true, beq_iff_eq] at hc
    rcases hc with ((rfl | rfl) | rfl) | rfl <;>
      simp [expressionKinds, Lexeme.layoutAt, Lexeme.LayoutClass.codeKind]
  | name _ _ _ => rcases nameLexed_kind frame outer c t with hk | hk <;> rw [hk] <;> decide
  | punctuation _ _ _ _ h => rcases (punctuation?_ok h).1 with hk | hk <;> rw [hk] <;> decide
  | spread | arrow | operator | number | string | quote => simp [expressionKinds]

theorem Inside.kind_mem (h : Inside s table frame outer c t lexed) :
    lexed.kind ∈ expressionKinds ++
      [.quoteEnd, .interpolationStart, .variableEnd, .blockEnd, .interpolationEnd] := by
  cases h with
  | endQuote | interpolate | literal => simp [expressionKinds]
  | close hend => rcases endAt?_kind hend with hk | hk | hk <;> simp [hk]
  | read _ _ h => exact List.mem_append_left _ h.kind_mem

end Lexer

end TwigStyle
