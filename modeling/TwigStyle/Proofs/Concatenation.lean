import TwigStyle.Proofs.Brackets
import TwigStyle.Proofs.Continued
import TwigStyle.Proofs.Shifted

/-!
# Templates one after the other

A template whose last construct is closed leaves nothing behind: what follows is cut into the same
tokens as it is alone, moved to where it stands (`tokenize_append`).

The text before the seam is read as if nothing followed (`run_append_right`), and what follows is
read as if nothing preceded it (`run_behind`).  What remains is that the seam is no place in a
verbatim body.  The lexer learns that a body starts from the name of the block that it leaves, so
`Named` keeps track of that name among the tokens.
-/

namespace TwigStyle

variable {table : OperatorTable} {source : List Char} {s : Lexer}

/-! ### The name of a block -/

/-- The name of the block that was opened last. -/
def lastBlockName? (ls : List Lexeme) : Option (List Char) :=
  ((ls.reverse.takeWhile (·.1 != .blockStart)).find? (·.1 == .blockName)).map (·.2)

/-- Is this the name of a block with a verbatim body? -/
def namesVerbatim (name : Option (List Char)) : Bool :=
  name == some "verbatim".toList || name == some "raw".toList

theorem lastBlockName?_concat {k : TokenKind} (hstart : k ≠ .blockStart) (hname : k ≠ .blockName)
    (ls : List Lexeme) (v : List Char) : lastBlockName? (ls ++ [(k, v)]) = lastBlockName? ls := by
  simp [lastBlockName?, hstart, hname]

theorem lastBlockName?_start (ls : List Lexeme) (v : List Char) :
    lastBlockName? (ls ++ [(.blockStart, v)]) = none := by
  simp [lastBlockName?]

theorem lastBlockName?_name (ls : List Lexeme) (v : List Char) :
    lastBlockName? (ls ++ [(.blockName, v)]) = some v := by
  simp [lastBlockName?]

/-! ### What a lexeme does to the open constructs -/

namespace Frame

/-- Constructs that are open inside of others. -/
def isNested : Frame → Bool
  | .quote | .interpolation _ => true
  | .variable _ | .block _ _ => false

/-- A lexeme with the spelling `value` leads from `frame :: outer` to other open constructs. -/
inductive Effect (frame : Frame) (outer : List Frame) (value : List Char) :
    TokenKind → List Frame → Prop
  | keep {kind : TokenKind} {bs : List OpenBracket} (hstart : kind ≠ .blockStart)
      (hname : kind ≠ .blockName) (hend : kind ≠ .blockEnd) :
    Effect frame outer value kind (frame.withBrackets bs :: outer)
  | name {bs : List OpenBracket} (hframe : frame = .block none bs) :
    Effect frame outer value .blockName (.block (some value) bs :: outer)
  | enter {kind : TokenKind} {new : Frame} (hnew : new.isNested = true)
      (hstart : kind ≠ .blockStart) (hname : kind ≠ .blockName) (hend : kind ≠ .blockEnd) :
    Effect frame outer value kind (new :: frame :: outer)
  | leave : Effect frame outer value frame.endKind outer

end Frame

namespace Lexer

variable {s s' : Lexer} {table : OperatorTable} {frame : Frame} {outer : List Frame} {c : Char}
  {t rest : List Char} {lexed : Lexed} {name : Option (List Char)}

theorem Punctuates.effect {value : List Char} (h : Punctuates s frame outer c lexed) :
    frame.Effect outer value lexed.kind lexed.frames := by
  cases h with
  | keep hkind _ _ _ => rcases hkind with rfl | rfl <;> exact .keep nofun nofun nofun
  | opener | closer => exact .keep nofun nofun nofun

theorem Inside.effect (h : Inside s table frame outer c t lexed) :
    frame.Effect outer (c :: t.take lexed.more) lexed.kind lexed.frames := by
  have hkeep : ∀ {value : List Char} {kind : TokenKind}, kind ≠ .blockStart → kind ≠ .blockName →
      kind ≠ .blockEnd → frame.Effect outer value kind (frame :: outer) := by
    intro value kind hstart hname hend
    have hsame : frame.Effect outer value kind (frame.withBrackets frame.brackets :: outer) :=
      .keep hstart hname hend
    rwa [frame.withBrackets_brackets] at hsame
  cases h with
  | endQuote hframe _ =>
    subst hframe
    exact .leave
  | interpolate hframe _ _ =>
    subst hframe
    exact .enter rfl nofun nofun nofun
  | literal hframe _ _ =>
    subst hframe
    exact hkeep nofun nofun nofun
  | close hend =>
    obtain ⟨-, -, -, rfl, -, -⟩ := Frame.endAt?_eq_some_iff.1 hend
    exact .leave
  | read hframe _ hread =>
    cases hread with
    | layout _ =>
      generalize (Lexeme.layoutAt c t).1 = cls
      cases cls <;> exact hkeep nofun nofun nofun
    | spread | arrow | operator | number | string => exact hkeep nofun nofun nofun
    | name _ _ _ =>
      unfold nameLexed
      split
      · exact .name rfl
      · exact hkeep nofun nofun nofun
    | punctuation _ _ _ _ hpunct => exact (Punctuates.of_ok hpunct).effect
    | quote _ _ _ => exact .enter rfl nofun nofun nofun

/-! ### Verbatim bodies start behind their block -/

/-- The block around everything else that is open is called like this. -/
def Called : Frame → Option (List Char) → Prop
  | .variable _, _ => True
  | .block name _, n => n = name
  | .quote, _ | .interpolation _, _ => False

/-- Outside of constructs, whether a verbatim body starts is read off the last block; inside, the
    outermost construct is a variable or a block with the name that was read. -/
inductive Named (s : Lexer) : Prop
  | outside (hframes : s.frames = [])
      (h : ∀ l, s.emitted.getLast? = some l → l.1.closes = true →
        s.verbatim = (l.1 == .blockEnd && namesVerbatim (lastBlockName? s.emitted)))
  | inside (inner : List Frame) (outermost : Frame) (hframes : s.frames = inner ++ [outermost])
      (hinner : ∀ frame ∈ inner, frame.isNested = true) (hverbatim : s.verbatim = false)
      (hcalled : Called outermost (lastBlockName? s.emitted))

theorem Named.data (hframes : s.frames = []) (h : s.data (c :: t) = .ok (s', rest)) : s'.Named := by
  obtain ⟨new, hdata, hnew⟩ := data_of_ok hframes h
  have hspell := hdata.spell.1
  generalize hframes' : s'.frames = frames at hdata
  generalize hverbatim' : s'.verbatim = verbatim at hdata
  cases hdata with
  | @text before _ =>
    refine .outside hframes' fun l hl hcloses => ?_
    -- The text is not empty, so the last lexeme is a piece of it and ends no construct.
    have hne : textLexemes before ≠ [] := by
      intro hnil
      rw [hnil] at hspell
      cases hspell
    rw [hnew, List.getLast?_append, List.getLast?_eq_some_getLast hne, Option.some_or] at hl
    cases hl
    rw [closes_of_mem_textLexemes _ (List.getLast_mem hne)] at hcloses
    cases hcloses
  | «variable» _ => exact .inside [] _ hframes' nofun hverbatim' trivial
  | block _ =>
    refine .inside [] _ hframes' nofun hverbatim' ?_
    rw [hnew, ← List.append_assoc]
    exact lastBlockName?_start _ _
  | comment _ _ =>
    refine .outside hframes' fun l hl _ => ?_
    rw [hnew, ← List.append_assoc, List.getLast?_concat] at hl
    cases hl
    exact hverbatim'

theorem startsVerbatim_of_called (h : Called frame name) : startsVerbatim frame frame.endKind =
      (frame.endKind == .blockEnd && namesVerbatim name) := by
  cases frame with
  | «variable» bs => rfl
  | block called bs =>
    obtain rfl : name = called := h
    cases name with
    | none => rfl
    | some name => simp [startsVerbatim, Frame.endKind, namesVerbatim]
  | quote | interpolation => cases h

theorem startsVerbatim_of_ne (frame : Frame) {kind : TokenKind} (h : kind ≠ .blockEnd) :
    startsVerbatim frame kind = false := by
  unfold startsVerbatim
  split
  · exact absurd rfl h
  · rfl

theorem Called.withBrackets (h : Called frame name) (bs : List OpenBracket) :
    Called (frame.withBrackets bs) name := by
  cases frame <;> exact h

theorem Frame.isNested_withBrackets (frame : Frame) (bs : List OpenBracket) :
    (frame.withBrackets bs).isNested = frame.isNested := by
  cases frame <;> rfl

section Effects

variable {inner : List Frame} {outermost : Frame} {kind : TokenKind} {value : List Char}
  {ls : List Lexeme}

theorem Named.of_nested (hframe : frame.isNested = true)
    (hinner : ∀ frame ∈ inner, frame.isNested = true) (hcalled : Called outermost (lastBlockName? ls))
    (heffect : frame.Effect (inner ++ [outermost]) value kind s.frames)
    (hemitted : s.emitted = ls ++ [(kind, value)])
    (hverbatim : s.verbatim = startsVerbatim frame kind) : s.Named := by
  have hverbatim' : s.verbatim = false := by
    rw [hverbatim]
    cases frame with
    | «variable» | block => cases hframe
    | quote | interpolation => rfl
  have hsame : kind ≠ .blockStart → kind ≠ .blockName →
      Called outermost (lastBlockName? s.emitted) := by
    intro hstart hname
    rw [hemitted, lastBlockName?_concat hstart hname]
    exact hcalled
  have hmore : ∀ {new : Frame}, new.isNested = true → ∀ frame ∈ new :: inner,
      frame.isNested = true := by
    intro new hnew frame hmem
    rcases List.mem_cons.1 hmem with rfl | hmem
    · exact hnew
    · exact hinner frame hmem
  generalize hframes : s.frames = frames at heffect
  cases heffect with
  | @keep _ bs hstart hname _ =>
    have hframe' : (frame.withBrackets bs).isNested = true := by
      rw [Frame.isNested_withBrackets, hframe]
    exact .inside _ outermost hframes (hmore hframe') hverbatim' (hsame hstart hname)
  | name heq =>
    rw [heq] at hframe
    cases hframe
  | @enter _ new hnew hstart hname _ =>
    refine .inside (new :: frame :: inner) outermost hframes ?_ hverbatim' (hsame hstart hname)
    intro frame' hmem
    rcases List.mem_cons.1 hmem with rfl | hmem
    · exact hnew
    · exact hmore hframe frame' hmem
  | leave =>
    refine .inside inner outermost hframes hinner hverbatim' (hsame ?_ ?_)
    · cases frame <;> exact nofun
    · cases frame <;> exact nofun

theorem Named.of_outermost (hcalled : Called frame (lastBlockName? ls))
    (heffect : frame.Effect [] value kind s.frames) (hemitted : s.emitted = ls ++ [(kind, value)])
    (hverbatim : s.verbatim = startsVerbatim frame kind) : s.Named := by
  generalize hframes : s.frames = frames at heffect
  cases heffect with
  | @keep _ bs hstart hname hend =>
    refine .inside [] _ hframes nofun ?_ ?_
    · rw [hverbatim, startsVerbatim_of_ne frame hend]
    · rw [hemitted, lastBlockName?_concat hstart hname]
      exact hcalled.withBrackets bs
  | @name bs heq =>
    refine .inside [] _ hframes nofun ?_ ?_
    · rw [hverbatim]
      exact startsVerbatim_of_ne frame nofun
    · rw [hemitted]
      exact lastBlockName?_name ls value
  | @enter _ new hnew hstart hname hend =>
    refine .inside [new] frame hframes ?_ ?_ ?_
    · intro frame' hmem
      rw [List.mem_singleton.1 hmem]
      exact hnew
    · rw [hverbatim, startsVerbatim_of_ne frame hend]
    · rw [hemitted, lastBlockName?_concat hstart hname]
      exact hcalled
  | leave =>
    refine .outside hframes fun l hl _ => ?_
    rw [hemitted, List.getLast?_concat] at hl
    cases hl
    rw [hverbatim, hemitted, lastBlockName?_concat, startsVerbatim_of_called hcalled]
    · cases frame <;> exact nofun
    · cases frame <;> exact nofun

end Effects

theorem Named.take (h : s.Named) (hframes : s.frames = frame :: outer)
    (hlexed : Inside s table frame outer c t lexed) : (s.take frame lexed c t).Named := by
  cases h with
  | outside hnil _ =>
    rw [hframes] at hnil
    cases hnil
  | inside inner outermost hsplit hinner hverbatim hcalled =>
    have heffect := hlexed.effect
    have hverbatim' := take_verbatim s frame lexed c t
    rw [hverbatim, Bool.false_or] at hverbatim'
    rw [← take_frames s frame lexed c t] at heffect
    rw [hframes] at hsplit
    cases inner with
    | nil =>
      obtain ⟨rfl, rfl⟩ := List.cons.inj hsplit
      exact .of_outermost hcalled heffect (emitted_take ..) hverbatim'
    | cons a inner =>
      obtain ⟨rfl, rfl⟩ := List.cons.inj hsplit
      exact .of_nested (hinner frame List.mem_cons_self)
        (fun frame' hmem => hinner frame' (List.mem_cons_of_mem frame hmem)) hcalled heffect
        (emitted_take ..) hverbatim'

theorem Named.step (h : s.Named) (hstep : s.step table c t = .ok (s', rest)) : s'.Named := by
  obtain ⟨hframes, hdata⟩ | ⟨frame, outer, lexed, hframes, hlexed, rfl, -⟩ := step_cases hstep
  · exact .data hframes hdata
  · exact h.take hframes hlexed

theorem Named.run (h : s.Named) (hrun : run table s t = .ok s') : s'.Named :=
  run_keeps (P := fun s _ => s.Named) Named.step h hrun

theorem named_init : ({} : Lexer).Named := .outside rfl nofun

end Lexer

/-! ### The seam -/

/-- The last token before the end of file closes a construct, and no verbatim body starts there. -/
def TokenStream.EndsClosed (s : TokenStream) : Prop :=
  ∃ ls l, s.lexemes = ls ++ [l, (.eof, [])] ∧ (l.1 = .variableEnd ∨ l.1 = .commentEnd ∨
    l.1 = .blockEnd ∧ lastBlockName? ls ≠ some "verbatim".toList ∧
      lastBlockName? ls ≠ some "raw".toList)

/-- What a template with this source puts in front of a text. -/
def Template.offset (t : Template) (source : List Char) : Offset :=
  ⟨t.stream.size - 1, lineBreakCount source, (lastLine source).length⟩

theorem Lexer.run_position (h : run table {} source = .ok s) :
    s.position = Position.start.after source := by
  obtain ⟨new, hnew, hspell, -⟩ := run_emits h
  have hunsplit : Unsplit s.emitted [] := run_unsplit h trivial
  rw [(placed_init.run h).next, placeBehind_eq hunsplit, hnew, emitted_init, List.nil_append,
    hspell]

theorem Lexer.behind_of_closed (hrun : run table {} source = .ok s) (hframes : s.frames = [])
    (hclosed : TokenStream.EndsClosed ⟨(s.emit .eof []).tokens, false⟩) :
    Behind s.tokens.toList (Template.offset ⟨⟨(s.emit .eof []).tokens, false⟩, []⟩ source) {} s ∧
      ∃ l, s.emitted.getLast? = some l ∧ l.1.closes = true := by
  obtain ⟨ls, l, hlexemes, hl⟩ := hclosed
  have hemitted : s.emitted = ls ++ [l] := by
    have heof : s.emitted ++ [(.eof, [])] = ls ++ [l] ++ [(.eof, [])] := by
      rw [← emitted_emit, List.append_assoc]
      exact hlexemes
    exact List.append_cancel_right heof
  have hlast : s.emitted.getLast? = some l := by rw [hemitted, List.getLast?_concat]
  have hcloses : l.1.closes = true := by
    rcases hl with hl | hl | ⟨hl, -⟩ <;> rw [hl] <;> rfl
  refine ⟨⟨?_, ?_, ?_, ?_, Nat.le_refl 1, hframes, ?_⟩, l, hlast, hcloses⟩
  · simp [Template.offset, TokenStream.size, Lexer.emit]
  · have hmeaningful : meaningful [l] = [l] := by
      rcases hl with hl | hl | ⟨hl, -⟩ <;> simp [meaningful, hl] <;> decide
    change endsAccess s.emitted = false
    rw [hemitted, endsAccess, meaningful_append, hmeaningful, List.getLast?_concat]
    obtain ⟨k, v⟩ := l
    rcases hl with rfl | rfl | ⟨rfl, -⟩ <;> rfl
  · exact (List.append_nil _).symm
  · rw [run_position hrun, Position.start_after]
    simp only [Offset.place, Template.offset, Position.start, if_true]
  · cases named_init.run hrun with
    | inside inner outermost hsplit _ _ _ =>
      rw [hframes] at hsplit
      simp at hsplit
    | outside _ hverbatim =>
      rw [hverbatim l hlast hcloses, hemitted]
      obtain ⟨k, v⟩ := l
      rcases hl with rfl | rfl | ⟨rfl, hverbatim, hraw⟩
      · rfl
      · rfl
      · have hsame : lastBlockName? (ls ++ [(.blockEnd, v)]) = lastBlockName? ls :=
          lastBlockName?_concat (by decide) (by decide) ls v
        rw [hsame]
        simpa [namesVerbatim] using ⟨hverbatim, hraw⟩

theorem tokenize_eq (table : OperatorTable) (source : List Char) :
    tokenize table source =
      match Lexer.run table {} source with
      | .error e => .error e.error
      | .ok s =>
        match s.frames with
        | [] => .ok ⟨⟨(s.emit .eof []).tokens, false⟩, s.directives⟩
        | frame :: _ => .error (.unexpectedEnd frame s.position.line) := by
  unfold tokenize Lexer.scan Lexer.finish
  cases Lexer.run table {} source with
  | error e => rfl
  | ok s => cases hframes : s.frames <;> simp [hframes] <;> rfl

/-- **A closed template leaves nothing behind.** What follows it is cut into the tokens it has
    alone, with their places and partners counted from the start, or fails as it does alone, on a
    later line. -/
theorem tokenize_append {s₁ s₂ : List Char} {t₁ : Template}
    (h : tokenize OperatorTable.default s₁ = .ok t₁) (hclosed : t₁.stream.EndsClosed) :
    (∀ t₂, tokenize OperatorTable.default s₂ = .ok t₂ →
      ∃ t, tokenize OperatorTable.default (s₁ ++ s₂) = .ok t ∧ t.stream.tokens.toList =
        t₁.stream.tokens.toList.dropLast ++ t₂.stream.tokens.toList.map (t₁.offset s₁).token) ∧
    (∀ e, tokenize OperatorTable.default s₂ = .error e →
      tokenize OperatorTable.default (s₁ ++ s₂) = .error ((t₁.offset s₁).error e)) := by
  obtain ⟨s, hrun, hframes, rfl⟩ := tokenize_eq_ok_iff.1 h
  obtain ⟨hbehind, hlast⟩ := Lexer.behind_of_closed hrun hframes hclosed
  have happend : Lexer.run OperatorTable.default {} (s₁ ++ s₂) =
      Lexer.run OperatorTable.default s s₂ :=
    Lexer.run_append_right hrun rfl fun _ => hlast
  have hparallel := Lexer.run_behind hbehind OperatorTable.default s₂
  rw [tokenize_eq _ (s₁ ++ s₂), happend, tokenize_eq _ s₂]
  generalize Lexer.run OperatorTable.default {} s₂ = r at hparallel
  generalize Lexer.run OperatorTable.default s s₂ = r' at hparallel
  cases hparallel with
  | error herror =>
    refine ⟨nofun, fun e he => ?_⟩
    cases he
    exact congrArg Except.error herror
  | @ok s₂ s₂' hbehind₂ =>
    simp only [hbehind₂.frames]
    cases s₂.frames with
    | nil =>
      refine ⟨fun t₂ ht₂ => ⟨_, rfl, ?_⟩, nofun⟩
      cases ht₂
      rw [(hbehind₂.emit .eof []).tokens]
      simp [Lexer.toList_emit, Template.offset]
    | cons frame outer =>
      refine ⟨nofun, fun e he => ?_⟩
      cases he
      simp only [List.map_cons, hbehind₂.position]
      rfl

/-- A call behind a block, which starts on the second line. -/
theorem tokenize_append_call :
    ∃ t₁ t₂ t, tokenize OperatorTable.default "\n\x7b% else %\x7d".toList = .ok t₁ ∧
      t₁.stream.EndsClosed ∧
      tokenize OperatorTable.default "\x7b\x7b f(b) \x7d\x7d".toList = .ok t₂ ∧
      tokenize OperatorTable.default
        ("\n\x7b% else %\x7d".toList ++ "\x7b\x7b f(b) \x7d\x7d".toList) = .ok t ∧
      t.stream.tokens.toList = t₁.stream.tokens.toList.dropLast ++
        t₂.stream.tokens.toList.map (Offset.token ⟨6, 1, 10⟩) := by
  obtain ⟨t₁, h₁⟩ := exists_ok_of_isOk (x := tokenize OperatorTable.default
    "\n\x7b% else %\x7d".toList) (by decide +kernel)
  obtain ⟨t₂, h₂⟩ := exists_ok_of_isOk (x := tokenize OperatorTable.default
    "\x7b\x7b f(b) \x7d\x7d".toList) (by decide +kernel)
  have hlexemes : (tokenize OperatorTable.default "\n\x7b% else %\x7d".toList).toOption.map
      (fun t => (t.stream.lexemes, t.stream.size)) =
        some ([(.lineBreak, ['\n']), (.blockStart, "\x7b%".toList), (.spaces, [' ']),
          (.blockName, "else".toList), (.spaces, [' ']), (.blockEnd, "%\x7d".toList),
          (.eof, [])], 7) := by decide +kernel
  rw [h₁] at hlexemes
  obtain ⟨hlexemes, hsize⟩ := Prod.mk.inj (Option.some.inj hlexemes)
  have hclosed : t₁.stream.EndsClosed :=
    ⟨[(.lineBreak, ['\n']), (.blockStart, "\x7b%".toList), (.spaces, [' ']),
      (.blockName, "else".toList), (.spaces, [' '])], (.blockEnd, "%\x7d".toList), hlexemes,
      .inr (.inr ⟨rfl, by decide, by decide⟩)⟩
  obtain ⟨t, ht, htokens⟩ := (tokenize_append h₁ hclosed).1 t₂ h₂
  have hoffset : t₁.offset "\n\x7b% else %\x7d".toList = ⟨6, 1, 10⟩ := by
    rw [Template.offset, hsize]
    decide
  rw [hoffset] at htokens
  exact ⟨t₁, t₂, t, h₁, hclosed, h₂, ht, htokens⟩

end TwigStyle
