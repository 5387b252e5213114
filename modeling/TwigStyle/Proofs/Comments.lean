import Mathlib.Data.List.Basic
import TwigStyle.Proofs.Silence
import TwigStyle.Proofs.Verbatim

/-!
# Comments and what they silence

The lexer finds directives while it cuts comments, from a piece of the source and a line that it keeps.
All of that can be read off the tokens: `directivesIn` goes through a row of tokens, takes what stands
between the start of a comment and the next end of one, and reads it on the line of the start.
`tokenize_collects` says that the two agree.

A comment starts only where nothing is open (`exists_comment`) and no verbatim body goes on
(`not_inVerbatim`), so what looks like a comment in a string or in a verbatim body silences nothing.
-/

namespace TwigStyle

/-! ### Comments in a row of tokens -/

/-- The text of some tokens. -/
def valuesText (ts : List Token) : List Char := (ts.map Token.value).flatten

/-- The text from here up to the end of a comment. -/
def commentText (ts : List Token) : List Char := valuesText (ts.takeWhile (·.kind != .commentEnd))

/-- The directives of the comments in a row of tokens, in order. -/
def directivesIn : List Token → List ViolationId
  | [] => []
  | t :: ts =>
    (if t.kind = .commentStart then (Directive.parse? (commentText ts) t.line).getD [] else []) ++
      directivesIn ts

/-- A token without its partner. -/
def Token.bare (t : Token) : Token := { t with related := none }

section Tokens

variable {ts body more : List Token} {start stop : Token}

theorem valuesText_eq (ts : List Token) : valuesText ts = spell (ts.map Token.lexeme) := by
  rw [spell, List.map_map]
  rfl

theorem commentText_append (hbody : ∀ t ∈ body, t.kind ≠ .commentEnd)
    (hstop : stop.kind = .commentEnd) (more : List Token) :
    commentText (body ++ stop :: more) = valuesText body := by
  have hall : ∀ t ∈ body, (t.kind != .commentEnd) = true := fun t ht => bne_iff_ne.2 (hbody t ht)
  rw [commentText, List.takeWhile_append_of_pos hall, List.takeWhile_cons_of_neg (by simp [hstop]),
    List.append_nil]

theorem directivesIn_append (h : ∀ t ∈ ts, t.kind ≠ .commentStart) (more : List Token) :
    directivesIn (ts ++ more) = directivesIn more := by
  induction ts with
  | nil => rfl
  | cons t ts ih =>
    rw [List.cons_append, directivesIn, if_neg (h t List.mem_cons_self), List.nil_append,
      ih fun u hu => h u (List.mem_cons_of_mem t hu)]

theorem directivesIn_comment (hstart : start.kind = .commentStart)
    (hbody : ∀ t ∈ body, t.kind ∈ Zone.comment.kinds) (hstop : stop.kind = .commentEnd)
    (more : List Token) :
    directivesIn (start :: (body ++ stop :: more)) =
      (Directive.parse? (valuesText body) start.line).getD [] ++ directivesIn more := by
  have hkinds : ∀ kind ∈ Zone.comment.kinds, kind ≠ .commentStart ∧ kind ≠ .commentEnd := by decide
  rw [directivesIn, if_pos hstart, commentText_append (fun t ht => (hkinds _ (hbody t ht)).2) hstop,
    directivesIn_append fun t ht => (hkinds _ (hbody t ht)).1, directivesIn, hstop,
    if_neg (by decide), List.nil_append]

theorem commentText_bare (ts : List Token) : commentText (ts.map Token.bare) = commentText ts := by
  rw [commentText, List.takeWhile_map, valuesText, List.map_map]
  rfl

theorem directivesIn_bare (ts : List Token) : directivesIn (ts.map Token.bare) = directivesIn ts := by
  induction ts with
  | nil => rfl
  | cons t ts ih =>
    rw [List.map_cons, directivesIn, directivesIn, commentText_bare, ih]
    rfl

end Tokens

/-! ### Directives of the lexer -/

namespace Lexer

variable {s s' : Lexer} {table : OperatorTable} {frame : Frame} {outer : List Frame} {c : Char}
  {t rest start : List Char} {lexed : Lexed}

theorem toList_emitAll (s : Lexer) (pieces : List Lexeme) :
    ∃ ts, (s.emitAll pieces).tokens.toList = s.tokens.toList ++ ts ∧
      ts.map Token.lexeme = pieces := by
  induction pieces generalizing s with
  | nil => exact ⟨[], by simp [emitAll], rfl⟩
  | cons p pieces ih =>
    obtain ⟨ts, hts, hlexemes⟩ := ih (s.emit p.1 p.2)
    refine ⟨{ kind := p.1, value := p.2, position := s.position } :: ts, ?_, ?_⟩
    · change ((s.emit p.1 p.2).emitAll pieces).tokens.toList = _
      rw [hts, toList_emit, List.append_assoc, List.singleton_append]
    · rw [List.map_cons, hlexemes]
      rfl

theorem bare_pair (s : Lexer) (first second : Nat) :
    (s.pair first second).tokens.toList.map Token.bare = s.tokens.toList.map Token.bare := by
  apply List.ext_getElem?
  intro i
  simp only [pair, List.getElem?_map, Array.getElem?_toList, Array.getElem?_modify]
  split <;> split <;> cases s.tokens[i]? <;> rfl

/-- The directives found so far are those of the comments emitted so far, and no comment is open. -/
def Collected (s : Lexer) : Prop :=
  ∀ more, directivesIn (s.tokens.toList ++ more) = s.directives ++ directivesIn more

theorem Collected.set (h : s.Collected) (position : Position) (frames : List Frame)
    (verbatim : Bool) :
    (⟨s.tokens, position, frames, verbatim, s.directives⟩ : Lexer).Collected := h

theorem Collected.emit (h : s.Collected) {kind : TokenKind} (hkind : kind ≠ .commentStart)
    (value : List Char) : (s.emit kind value).Collected := by
  intro more
  have hone : ∀ t ∈ [({ kind, value, position := s.position } : Token)],
      t.kind ≠ .commentStart := by
    intro t ht
    rw [List.mem_singleton.1 ht]
    exact hkind
  rw [toList_emit, List.append_assoc, h, directivesIn_append hone]
  rfl

theorem Collected.emitAll (h : s.Collected) {pieces : List Lexeme}
    (hpieces : ∀ l ∈ pieces, l.1 ≠ .commentStart) : (s.emitAll pieces).Collected := by
  induction pieces generalizing s with
  | nil => exact h
  | cons p pieces ih =>
    exact ih (h.emit (hpieces p List.mem_cons_self) p.2)
      fun l hl => hpieces l (List.mem_cons_of_mem p hl)

theorem Collected.pair (h : s.Collected) (first second : Nat) : (s.pair first second).Collected := by
  intro more
  rw [← directivesIn_bare, List.map_append, bare_pair, ← List.map_append, directivesIn_bare]
  exact h more

theorem Collected.take (h : s.Collected) (hkind : lexed.kind ≠ .commentStart) :
    (s.take frame lexed c t).Collected := by
  unfold Lexer.take
  cases lexed.partner with
  | none => exact (h.set _ _ _).emit hkind _
  | some first => exact ((h.set _ _ _).emit hkind _).pair _ _

/-- The tokens of a comment, and what is read from its body on the line of its start. -/
theorem comment_tokens (h : s.comment start t = .ok (s', rest)) :
    ∃ body ts, ∃ first last : Token, s'.tokens.toList = s.tokens.toList ++ first :: (ts ++ [last]) ∧
      first.kind = .commentStart ∧ last.kind = .commentEnd ∧
      ts.map Token.lexeme = commentLexemes body ∧
      s'.directives = s.directives ++ (Directive.parse? body first.line).getD [] := by
  unfold Lexer.comment at h
  simp only at h
  split at h
  · cases h
  · rename_i body stop rest' hbody
    cases h
    obtain ⟨ts, hts, hlexemes⟩ := toList_emitAll
      ⟨(s.emit .commentStart start).tokens, (s.emit .commentStart start).position, s.frames,
        s.verbatim, s.directives ++ (Directive.parse? body s.position.line).getD []⟩
      (commentLexemes body)
    rw [toList_emit, List.append_assoc, List.singleton_append] at hts
    have htokens := (toList_emit _ .commentEnd stop).trans (congrArg (· ++ [_]) hts)
    simp only [List.append_assoc, List.cons_append] at htokens
    exact ⟨body, ts, _, _, htokens, rfl, rfl, hlexemes, by simp [Token.line]⟩

theorem Collected.comment (h : s.Collected) (hcomment : s.comment start t = .ok (s', rest)) :
    s'.Collected := by
  obtain ⟨body, ts, first, last, htokens, hfirst, hlast, hlexemes, hdirectives⟩ :=
    comment_tokens hcomment
  have hkinds : ∀ t ∈ ts, t.kind ∈ Zone.comment.kinds := by
    intro t ht
    refine kinds_commentLexemes body t.kind ?_
    rw [← hlexemes, List.map_map]
    exact List.mem_map_of_mem ht
  have htext : valuesText ts = body := by
    rw [valuesText_eq, hlexemes, spell_commentLexemes]
  intro more
  rw [htokens, List.append_assoc, h, List.cons_append, List.append_assoc, List.singleton_append,
    directivesIn_comment hfirst hkinds hlast, htext, hdirectives, List.append_assoc]

theorem Collected.data (h : s.Collected) (hdata : s.data t = .ok (s', rest)) : s'.Collected := by
  unfold Lexer.data at hdata
  rcases hfind : Delimiter.find s.verbatim 0 t with ⟨before, found⟩
  have htext : (s.emitAll (textLexemes before)).Collected :=
    h.emitAll (kind_of_mem_textLexemes before)
  simp only [hfind] at hdata
  split at hdata
  · cases hdata
    exact htext
  · cases hdata
    exact htext.emit (by decide) _
  · cases hdata
    exact htext.emit (by decide) _
  · exact (htext.set _ _ _).comment hdata

theorem Collected.step (h : s.Collected) (hstep : s.step table c t = .ok (s', rest)) :
    s'.Collected := by
  obtain ⟨-, hdata⟩ | ⟨frame, outer, lexed, -, hlexed, rfl, -⟩ := step_cases hstep
  · exact h.data hdata
  · exact h.take hlexed.kind_ne_commentStart

theorem Collected.run (h : s.Collected) (hrun : run table s t = .ok s') : s'.Collected :=
  run_keeps (P := fun s _ => s.Collected) Collected.step h hrun

theorem collected_init : ({} : Lexer).Collected := fun _ => rfl

end Lexer

/-! ### Where comments stand -/

/-- The next token stands in a verbatim body: a block that starts one has ended, and no block has
    started since. -/
def InVerbatim (ls : List Lexeme) : Prop :=
  ∃ ms v body, ls = ms ++ (.blockEnd, v) :: body ∧ namesVerbatim (lastBlockName? ms) = true ∧
    ∀ l ∈ body, l.1 ≠ .blockStart

/-- The tokens of a comment. -/
structure IsComment (start : Token) (body : List Token) (stop : Token) : Prop where
  start_kind : start.kind = .commentStart
  body_kinds : ∀ token ∈ body, token.kind ∈ Zone.comment.kinds
  stop_kind : stop.kind = .commentEnd

section Places

variable {table : OperatorTable} {source : List Char} {t : Template} {ls ms : List Lexeme}
  {v : List Char} {before rest : List Token} {start : Token}

theorem commentStart_notMem_textLexemes (before v : List Char) :
    (.commentStart, v) ∉ textLexemes before :=
  fun hmem => Lexer.kind_of_mem_textLexemes before _ hmem rfl

/-- Template text in which a comment starts: text, and the whole comment. -/
theorem Lexer.Data.of_commentStart {verbatim verbatim' : Bool} {u rest : List Char}
    {frames : List Frame}
    (h : Lexer.Data verbatim u (ls ++ (.commentStart, v) :: ms) frames verbatim' rest) :
    (∀ c ∈ v, Text.isLayout c = false) ∧ (∃ before, ls = textLexemes before) ∧
      ∃ body stop, ms = commentLexemes body ++ [(.commentEnd, stop)] := by
  generalize hnew : ls ++ (.commentStart, v) :: ms = new at h
  have hmem : (.commentStart, v) ∈ new := by simp [← hnew]
  cases h with
  | text => exact absurd hmem (commentStart_notMem_textLexemes _ v)
  | «variable» | block => exact absurd (by simpa using hmem) (commentStart_notMem_textLexemes _ v)
  | @comment before _ _ body stop _ hfind _ =>
    rw [List.append_assoc, List.cons_append] at hnew
    have hbody : (.commentStart, v) ∉ commentLexemes body ++ [(.commentEnd, stop)] := by
      intro hmem
      rcases List.mem_append.1 hmem with hmem | hmem
      · exact Lexer.kind_of_mem_commentLexemes body _ hmem rfl
      · cases List.mem_singleton.1 hmem
    obtain ⟨rfl, hstart, rfl⟩ :=
      (List.append_cons_inj_of_notMem (commentStart_notMem_textLexemes before v) hbody).1 hnew.symm
    cases hstart
    exact ⟨Delimiter.isLayout_of_mem_at? (Delimiter.find_found hfind).1, ⟨before, rfl⟩, body, stop, rfl⟩

/-- The step that adds the start of a comment stands in the template and adds the whole comment. -/
theorem exists_comment (h : tokenize table source = .ok t)
    (hsplit : t.stream.lexemes = ls ++ (.commentStart, v) :: ms) :
    (∀ c ∈ v, Text.isLayout c = false) ∧ (∃ direct, Word .template direct (ls.map Prod.fst)) ∧
      ∃ body stop more, ms = commentLexemes body ++ (.commentEnd, stop) :: more := by
  obtain ⟨s, c, u, s', rest, before, after, final, hgrammatical, hstep, rfl, hemitted, hrun, hfinal⟩ :=
    tokenize_moment (I := Lexer.Grammatical) (.closed .nil) Lexer.Grammatical.step h hsplit nofun
  rcases Lexer.step_cases hstep with ⟨hframes, hdata⟩ | ⟨frame, outer, lexed, -, hlexed, rfl, rfl⟩
  · obtain ⟨new, hdata, hnew⟩ := Lexer.data_of_ok hframes hdata
    rw [hemitted, List.append_cancel_left_eq] at hnew
    rw [← hnew] at hdata
    obtain ⟨hsolid, ⟨text, rfl⟩, body, stop, rfl⟩ := hdata.of_commentStart
    refine ⟨hsolid, ?_, ?_⟩
    · unfold Lexer.Grammatical at hgrammatical
      rw [hframes] at hgrammatical
      cases hgrammatical with
      | closed hword =>
        rw [List.map_append]
        exact ⟨_, hword.append (.of_kinds (kinds_textLexemes text))⟩
    · obtain ⟨more, hmore, -, -⟩ := Lexer.run_emits hrun
      rw [hmore, hemitted] at hfinal
      exact ⟨body, stop, more ++ [(.eof, [])], by simpa using hfinal⟩
  · rw [Lexer.emitted_take, List.append_cancel_left_eq] at hemitted
    have hmem : (.commentStart, v) ∈ [(lexed.kind, c :: u.take lexed.more)] := by simp [hemitted]
    exact absurd (congrArg Prod.fst (List.mem_singleton.1 hmem)).symm hlexed.kind_ne_commentStart

/-- In a verbatim body no comment starts. -/
theorem not_inVerbatim (h : tokenize table source = .ok t)
    (hsplit : t.stream.lexemes = ls ++ (.commentStart, v) :: ms) : ¬InVerbatim ls := by
  rintro ⟨ls, w, body, rfl, hname, hbody⟩
  rw [List.append_assoc, List.cons_append] at hsplit
  obtain ⟨s, final, rest, hframes, hverbatim, hrun, hemitted, hfinal⟩ :=
    Lexer.exists_body h hsplit hname
  obtain ⟨hfirst, hnone⟩ := Lexer.run_verbatim hframes hverbatim hrun
  rcases Delimiter.firstEnd_or_noEnd rest with ⟨before, start, hend⟩ | hend
  · obtain ⟨more, hmore⟩ := hfirst before start hend
    -- The tag that ends the body comes after the text of the body and before the comment.
    have hsplit' : textLexemes before ++ (.blockStart, start) :: (more ++ [(.eof, [])]) =
        body ++ (.commentStart, v) :: ms := by
      rw [hmore, hemitted] at hfinal
      simpa using hfinal
    rcases List.append_eq_append_iff.1 hsplit' with ⟨w, rfl, hw⟩ | ⟨w, htext, hw⟩
    · cases w with
      | nil => cases hw
      | cons l w =>
        obtain ⟨rfl, -⟩ := List.cons.inj hw
        exact hbody _ (List.mem_append_right _ List.mem_cons_self) rfl
    · cases w with
      | nil => cases hw
      | cons l w =>
        obtain ⟨rfl, -⟩ := List.cons.inj hw
        refine commentStart_notMem_textLexemes before v ?_
        rw [htext]
        exact List.mem_append_right body List.mem_cons_self
  · rw [hnone hend, hemitted] at hfinal
    have hsplit' : textLexemes rest ++ [(.eof, [])] = body ++ (.commentStart, v) :: ms := by
      simpa using hfinal
    have hmem : (.commentStart, v) ∈ textLexemes rest ++ [(.eof, [])] := by simp [hsplit']
    exact absurd (by simpa using hmem) (commentStart_notMem_textLexemes rest v)

theorem TokenStream.lexemes_of_commentStart {s : TokenStream}
    (hsplit : s.tokens.toList = before ++ start :: rest) (hstart : start.kind = .commentStart) :
    s.lexemes = before.map Token.lexeme ++ (.commentStart, start.value) :: rest.map Token.lexeme := by
  rw [lexemes, hsplit, List.map_append, List.map_cons, Token.lexeme, hstart]

theorem exists_isComment (h : tokenize table source = .ok t)
    (hsplit : t.stream.tokens.toList = before ++ start :: rest)
    (hstart : start.kind = .commentStart) :
    ∃ body stop after, rest = body ++ stop :: after ∧ IsComment start body stop := by
  obtain ⟨-, -, text, stop, more, hmore⟩ :=
    exists_comment h (TokenStream.lexemes_of_commentStart hsplit hstart)
  obtain ⟨body, tail, rfl, hbody, htail⟩ := List.map_eq_append_iff.1 hmore
  obtain ⟨last, after, rfl, hlast, -⟩ := List.map_eq_cons_iff.1 htail
  refine ⟨body, last, after, rfl, hstart, fun token htoken => ?_, congrArg Prod.fst hlast⟩
  refine kinds_commentLexemes text token.kind ?_
  rw [← hbody, List.map_map]
  exact List.mem_map_of_mem htoken

theorem directives_eq (h : tokenize table source = .ok t) :
    t.directives = directivesIn t.stream.tokens.toList := by
  obtain ⟨s, hrun, -, rfl⟩ := tokenize_eq_ok_iff.1 h
  have heof : TokenKind.eof ≠ .commentStart := by decide
  have hall := (Lexer.collected_init.run hrun).emit heof [] []
  rw [List.append_nil] at hall
  exact (hall.trans (List.append_nil _)).symm

end Places

/-- **Directives are read off the tokens.** What a template silences is what its comments say, one
    after the other: the text between the start of a comment and the next end of one, read on the
    line of the start.  A comment starts where nothing is open, so in no string, and where no
    verbatim body goes on, and only lexemes of comments stand in it. -/
theorem tokenize_collects {table : OperatorTable} {source : List Char} {t : Template}
    (h : tokenize table source = .ok t) :
    t.directives = directivesIn t.stream.tokens.toList ∧
      ∀ before start rest, t.stream.tokens.toList = before ++ start :: rest →
        start.kind = .commentStart →
        (∃ body stop after, rest = body ++ stop :: after ∧ IsComment start body stop) ∧
        (∃ direct, Word .template direct (before.map Token.kind)) ∧
        ¬InVerbatim (before.map Token.lexeme) := by
  refine ⟨directives_eq h, ?_⟩
  intro before start rest hsplit hstart
  have hlexemes := TokenStream.lexemes_of_commentStart hsplit hstart
  obtain ⟨-, ⟨direct, hword⟩, -⟩ := exists_comment h hlexemes
  rw [List.map_map] at hword
  exact ⟨exists_isComment h hsplit hstart, ⟨direct, hword⟩, not_inVerbatim h hlexemes⟩

/-- A verbatim body and a string that look like comments, and a comment over two lines. -/
theorem tokenize_collects_hidden :
    ∃ t before start rest, tokenize OperatorTable.default
        ("\x7b% raw %\x7d\x7b# twig-cs-fixer-disable A #\x7d\x7b% endraw %\x7d".toList ++
          "\x7b\x7b '\x7b# twig-cs-fixer-disable B #\x7d' \x7d\x7d\n".toList ++
          "\x7b#- twig-cs-fixer-disable-line C,\nD:9 #\x7d".toList) = .ok t ∧
      t.stream.tokens.toList = before ++ start :: rest ∧ start.kind = .commentStart ∧
      directivesIn t.stream.tokens.toList = [
        { rule := some "C", line := some 2 }, { rule := some "D", line := some 9 }] ∧
      t.directives = directivesIn t.stream.tokens.toList ∧
      ¬InVerbatim (before.map Token.lexeme) := by
  generalize hsource :
    "\x7b% raw %\x7d\x7b# twig-cs-fixer-disable A #\x7d\x7b% endraw %\x7d".toList ++
    "\x7b\x7b '\x7b# twig-cs-fixer-disable B #\x7d' \x7d\x7d\n".toList ++
    "\x7b#- twig-cs-fixer-disable-line C,\nD:9 #\x7d".toList = source
  have hfacts : (tokenize OperatorTable.default source).toOption.map (fun t =>
      (directivesIn t.stream.tokens.toList,
        t.stream.tokens.toList.any (·.kind == .commentStart))) =
      some ([{ rule := some "C", line := some 2 }, { rule := some "D", line := some 9 }], true) := by
    rw [← hsource]
    decide +kernel
  obtain ⟨t, ht⟩ := exists_ok_of_isOk (x := tokenize OperatorTable.default source) (by
    rw [← hsource]
    decide +kernel)
  rw [ht] at hfacts
  obtain ⟨hdirectives, hany⟩ := Prod.mk.inj (Option.some.inj hfacts)
  obtain ⟨start, hmem, hstart⟩ := List.any_eq_true.1 hany
  obtain ⟨before, rest, hsplit⟩ := List.append_of_mem hmem
  have hall := tokenize_collects ht
  have hplace := hall.2 before start rest hsplit (eq_of_beq hstart)
  exact ⟨t, before, start, rest, ht, hsplit, eq_of_beq hstart, hdirectives, hall.1, hplace.2.2⟩

end TwigStyle
