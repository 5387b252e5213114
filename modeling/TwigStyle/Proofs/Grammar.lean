import TwigStyle.Proofs.Brackets

/-!
# The grammar of templates

The kinds of the tokens of a template are a word of a grammar: text and constructs in the template,
lexemes and strings in code, literals and interpolations in strings.  Which kinds stand alone in a
zone and which pairs of kinds enclose another zone is the same for every table of operators
(`Zone.kinds`, `Encloses`).

`Word zone direct ks` says that `ks` is a word of the zone, and that `direct` are the kinds that stand
directly in it, what strings and constructs enclose left out.  The name of a block is bound by that:
directly in a block it comes once, before all other names, and directly in any other construct there
is none (`NamesFit`).

The lexer keeps what it has emitted a word up to the constructs that are open (`Unfinished`), and a
block knows whether its name has come.
-/

namespace TwigStyle

variable {k : TokenKind} {direct : List TokenKind}

/-! ### Words -/

/-- The name of a block comes once and before every other name, and only in blocks.  `direct` are the
    kinds that stand directly in the construct that `start` opens. -/
structure NamesFit (start : TokenKind) (direct : List TokenKind) : Prop where
  inBlock : .blockName ∈ direct → start = .blockStart
  once : direct.count .blockName ≤ 1
  first : start = .blockStart → ∀ before after, direct = before ++ .name :: after →
    .blockName ∈ before

/-- The words of a zone, with the kinds that stand directly in it. -/
inductive Word : Zone → (direct : List TokenKind) → List TokenKind → Prop
  | nil {zone : Zone} : Word zone [] []
  | token {zone : Zone} {k : TokenKind} {direct ks : List TokenKind} (hk : k ∈ zone.kinds)
      (h : Word zone direct ks) :
    Word zone (k :: direct) (k :: ks)
  | enclose {outer inner : Zone} {start stop : TokenKind} {direct ks inside body : List TokenKind}
      (henclose : Encloses outer start stop inner) (hbody : Word inner inside body)
      (hnames : NamesFit start inside) (h : Word outer direct ks) :
    Word outer direct (start :: (body ++ stop :: ks))

namespace Word

variable {zone : Zone} {direct direct' ks ks' : List TokenKind}

theorem append (h : Word zone direct ks) (h' : Word zone direct' ks') :
    Word zone (direct ++ direct') (ks ++ ks') := by
  induction h with
  | nil => exact h'
  | token hk _ ih => exact .token hk (ih h')
  | enclose henclose hbody hnames _ _ ih =>
    rw [List.cons_append, List.append_assoc, List.cons_append]
    exact .enclose henclose hbody hnames (ih h')

theorem of_kinds (h : ∀ k ∈ ks, k ∈ zone.kinds) : Word zone ks ks := by
  induction ks with
  | nil => exact .nil
  | cons k ks ih =>
    exact .token (h k List.mem_cons_self) (ih fun k' hk' => h k' (List.mem_cons_of_mem k hk'))

theorem append_enclose {inner : Zone} {start stop : TokenKind} {inside body : List TokenKind}
    (h : Word zone direct ks) (henclose : Encloses zone start stop inner)
    (hbody : Word inner inside body) (hnames : NamesFit start inside) :
    Word zone direct (ks ++ start :: (body ++ [stop])) := by
  have happend := h.append (.enclose henclose hbody hnames .nil)
  rwa [List.append_nil] at happend

end Word

theorem NamesFit.of_notMem {start : TokenKind} (hstart : start ≠ .blockStart)
    (h : .blockName ∉ direct) : NamesFit start direct where
  inBlock hmem := absurd hmem h
  once := by
    rw [List.count_eq_zero.2 h]
    exact Nat.zero_le 1
  first hblock := absurd hblock hstart

theorem notMem_concat {k' : TokenKind} {ks : List TokenKind} (h : k ∉ ks) (hne : k' ≠ k) :
    k ∉ ks ++ [k'] := by
  intro hmem
  rcases List.mem_append.1 hmem with hmem | hmem
  · exact h hmem
  · exact hne (List.mem_singleton.1 hmem).symm

theorem NamesFit.append (h : NamesFit .blockStart direct) (hmem : .blockName ∈ direct)
    (hk : k ≠ .blockName) : NamesFit .blockStart (direct ++ [k]) where
  inBlock _ := rfl
  once := by
    rw [List.count_append, List.count_singleton, if_neg (by simpa using hk)]
    exact h.once
  first _ before after hsplit := by
    rcases List.append_eq_append_iff.1 hsplit with ⟨w, rfl, -⟩ | ⟨w, rfl, hw⟩
    · exact List.mem_append_left w hmem
    · -- The name is the new kind, or it stood there before.
      cases w with
      | nil =>
        rw [List.append_nil] at hmem
        exact hmem
      | cons x w =>
        obtain ⟨rfl, -⟩ := List.cons.inj hw
        exact h.first rfl before w rfl

/-! ### Open constructs -/

namespace Frame

/-- The kind that opens a construct. -/
def start : Frame → TokenKind
  | .variable _ => .variableStart
  | .block _ _ => .blockStart
  | .quote => .quoteStart
  | .interpolation _ => .interpolationStart

/-- The kind that ends a construct. -/
def stop : Frame → TokenKind
  | .variable _ => .variableEnd
  | .block _ _ => .blockEnd
  | .quote => .quoteEnd
  | .interpolation _ => .interpolationEnd

/-- What stands in a construct. -/
def zone : Frame → Zone
  | .quote => .quoted
  | _ => .code

/-- What a construct knows about the kinds directly in it: a block knows whether its name has come,
    and in other constructs there is none. -/
def Knows : Frame → List TokenKind → Prop
  | .block none _, direct => .blockName ∉ direct ∧ .name ∉ direct
  | .block (some _) _, direct => NamesFit .blockStart direct ∧ .blockName ∈ direct
  | _, direct => .blockName ∉ direct

variable {frame : Frame} {direct : List TokenKind} {k : TokenKind}

theorem zone_of_ne_quote (h : frame ≠ .quote) : frame.zone = .code := by
  cases frame with
  | quote => exact absurd rfl h
  | «variable» | block | interpolation => rfl

theorem Knows.namesFit (h : frame.Knows direct) : NamesFit frame.start direct := by
  cases frame with
  | «variable» | quote | interpolation => exact .of_notMem nofun h
  | block name bs =>
    cases name with
    | some _ => exact h.1
    | none =>
      refine ⟨fun hmem => absurd hmem h.1, ?_, ?_⟩
      · rw [List.count_eq_zero.2 h.1]
        exact Nat.zero_le 1
      · rintro - before after rfl
        exact absurd (List.mem_append_right before List.mem_cons_self) h.2

theorem Knows.append_other (h : frame.Knows direct) (hblock : k ≠ .blockName) (hname : k ≠ .name) :
    frame.Knows (direct ++ [k]) := by
  cases frame with
  | «variable» | quote | interpolation => exact notMem_concat h hblock
  | block name bs =>
    cases name with
    | none => exact ⟨notMem_concat h.1 hblock, notMem_concat h.2 hname⟩
    | some _ => exact ⟨h.1.append h.2 hblock, List.mem_append_left _ h.2⟩

theorem Knows.append_blockName {bs : List OpenBracket} (h : (Frame.block none bs).Knows direct)
    (name : List Char) : (Frame.block (some name) bs).Knows (direct ++ [.blockName]) := by
  refine ⟨⟨fun _ => rfl, ?_, ?_⟩, List.mem_append_right _ List.mem_cons_self⟩
  · rw [List.count_append, List.count_eq_zero.2 h.1]
    decide
  · rintro - before after hsplit
    have hmem : TokenKind.name ∈ direct ++ [.blockName] := by
      rw [hsplit]
      exact List.mem_append_right before List.mem_cons_self
    rcases List.mem_append.1 hmem with hmem | hmem
    · exact absurd hmem h.2
    · cases List.mem_singleton.1 hmem

theorem Knows.append_name (h : frame.Knows direct) (hframe : ∀ bs, frame ≠ .block none bs) :
    frame.Knows (direct ++ [.name]) := by
  cases frame with
  | «variable» | quote | interpolation => exact notMem_concat h nofun
  | block name bs =>
    cases name with
    | none => exact absurd rfl (hframe bs)
    | some _ => exact ⟨h.1.append h.2 nofun, List.mem_append_left _ h.2⟩

theorem Knows.withBrackets (h : frame.Knows direct) (bs : List OpenBracket) :
    (frame.withBrackets bs).Knows direct := by
  cases frame with
  | «variable» | quote | interpolation => exact h
  | block name _ => cases name <;> exact h

theorem start_withBrackets (frame : Frame) (bs : List OpenBracket) :
    (frame.withBrackets bs).start = frame.start := by
  cases frame <;> rfl

theorem stop_withBrackets (frame : Frame) (bs : List OpenBracket) :
    (frame.withBrackets bs).stop = frame.stop := by
  cases frame <;> rfl

theorem zone_withBrackets (frame : Frame) (bs : List OpenBracket) :
    (frame.withBrackets bs).zone = frame.zone := by
  cases frame <;> rfl

theorem stop_of_endAt? {t : List Char} {kind : TokenKind} {n : Nat}
    (h : frame.endAt? t = some (kind, n)) : frame.stop = kind := by
  have hopenings := openings_of_endAt? h
  rw [openings] at hopenings
  have hlast := congrArg List.getLast? hopenings
  rw [List.getLast?_concat, List.getLast?_singleton, Option.some.injEq] at hlast
  cases frame <;> cases hlast <;> rfl

end Frame

/-- Where the next token stands. -/
def zoneOf : List Frame → Zone
  | [] => .template
  | frame :: _ => frame.zone

/-- Kinds that are a word up to the constructs that are open, innermost first. -/
inductive Unfinished : List Frame → List TokenKind → Prop
  | closed {direct ks : List TokenKind} (h : Word .template direct ks) : Unfinished [] ks
  | inside {frame : Frame} {outer : List Frame} {ks direct body : List TokenKind}
      (h : Unfinished outer ks)
      (henclose : Encloses (zoneOf outer) frame.start frame.stop frame.zone)
      (hbody : Word frame.zone direct body) (hknows : frame.Knows direct) :
    Unfinished (frame :: outer) (ks ++ frame.start :: body)

namespace Unfinished

variable {frame : Frame} {outer : List Frame} {ks : List TokenKind} {k : TokenKind}

theorem append {frame' : Frame} (h : Unfinished (frame :: outer) ks) (hk : k ∈ frame.zone.kinds)
    (hstart : frame'.start = frame.start) (hstop : frame'.stop = frame.stop)
    (hzone : frame'.zone = frame.zone)
    (hknows : ∀ direct, frame.Knows direct → frame'.Knows (direct ++ [k])) :
    Unfinished (frame' :: outer) (ks ++ [k]) := by
  cases h with
  | @inside _ _ ks direct body h henclose hbody hknows' =>
    rw [List.append_assoc, List.cons_append, ← hstart]
    refine .inside h ?_ ?_ (hknows direct hknows')
    · rwa [hstart, hstop, hzone]
    · rw [hzone]
      exact hbody.append (.token hk .nil)

theorem token (h : Unfinished (frame :: outer) ks) (hk : k ∈ frame.zone.kinds)
    (hblock : k ≠ .blockName) (hname : k ≠ .name) :
    Unfinished (frame :: outer) (ks ++ [k]) :=
  h.append hk rfl rfl rfl fun _ hknows => hknows.append_other hblock hname

theorem opens (h : Unfinished outer ks) (frame : Frame)
    (henclose : Encloses (zoneOf outer) frame.start frame.stop frame.zone)
    (hknows : frame.Knows []) : Unfinished (frame :: outer) (ks ++ [frame.start]) :=
  .inside h henclose .nil hknows

theorem close (h : Unfinished (frame :: outer) ks) : Unfinished outer (ks ++ [frame.stop]) := by
  cases h with
  | @inside _ _ ks direct body h henclose hbody hknows =>
    rw [List.append_assoc, List.cons_append]
    cases h with
    | closed h => exact .closed (h.append_enclose henclose hbody hknows.namesFit)
    | @inside frame' _ ks _ body' h henclose' hbody' hknows' =>
      rw [List.append_assoc, List.cons_append]
      exact .inside h henclose' (hbody'.append_enclose henclose hbody hknows.namesFit) hknows'

end Unfinished

/-! ### The lexer -/

theorem kinds_textLexemes (t : List Char) :
    ∀ k ∈ (textLexemes t).map Prod.fst, k ∈ Zone.template.kinds := by
  intro k hk
  simp only [textLexemes, List.map_map, List.mem_map] at hk
  obtain ⟨⟨cls, v⟩, -, rfl⟩ := hk
  change cls.codeKind ∈ Zone.template.kinds
  cases cls <;> decide

theorem kinds_commentLexemes (t : List Char) :
    ∀ k ∈ (commentLexemes t).map Prod.fst, k ∈ Zone.comment.kinds := by
  intro k hk
  simp only [commentLexemes, List.map_map, List.mem_map] at hk
  obtain ⟨⟨cls, v⟩, -, rfl⟩ := hk
  change cls.commentKind ∈ Zone.comment.kinds
  cases cls <;> decide

namespace Lexer

variable {s s' : Lexer} {table : OperatorTable} {frame : Frame} {outer frames : List Frame}
  {c : Char} {t rest : List Char} {lexed : Lexed} {ks : List TokenKind} {verbatim verbatim' : Bool}
  {new : List Lexeme}

theorem Data.kind_mem (h : Data verbatim t new frames verbatim' rest) {l : Lexeme} (hl : l ∈ new) :
    l.1 ∈ Zone.template.kinds ++ Zone.comment.kinds ++
      [.commentStart, .commentEnd, .variableStart, .blockStart] := by
  refine h.forall (P := fun l => l.1 ∈ Zone.template.kinds ++ Zone.comment.kinds ++
    [.commentStart, .commentEnd, .variableStart, .blockStart]) ?_ ?_ (fun _ => by simp) l hl
  · rintro u ⟨cls, v⟩ -
    cases cls <;> simp [Zone.kinds, Lexeme.LayoutClass.codeKind, Lexeme.LayoutClass.commentKind]
  · exact fun _ => by simp

/-- The kinds emitted so far are a word up to the constructs that are open. -/
def Grammatical (s : Lexer) : Prop := Unfinished s.frames (s.emitted.map Prod.fst)

theorem Data.unfinished (hdata : Data verbatim t new frames verbatim' rest) (h : Unfinished [] ks) :
    Unfinished frames (ks ++ new.map Prod.fst) := by
  obtain ⟨direct, hword⟩ : ∃ direct, Word .template direct ks := by
    cases h with
    | closed hword => exact ⟨_, hword⟩
  have htext : ∀ before, Unfinished [] (ks ++ (textLexemes before).map Prod.fst) := fun before =>
    .closed (hword.append (.of_kinds (kinds_textLexemes before)))
  cases hdata with
  | text _ => exact htext _
  | «variable» _ =>
    rw [List.map_append, ← List.append_assoc]
    exact (htext _).opens (.variable []) .variable nofun
  | block _ =>
    rw [List.map_append, ← List.append_assoc]
    exact (htext _).opens (.block none []) .block ⟨nofun, nofun⟩
  | @comment before value after body stop _ _ _ =>
    have hbody : Word .comment _ ((commentLexemes body).map Prod.fst) :=
      .of_kinds (kinds_commentLexemes body)
    have hnames : NamesFit .commentStart ((commentLexemes body).map Prod.fst) :=
      .of_notMem nofun fun hmem => absurd (kinds_commentLexemes body _ hmem) (by decide)
    have hcomment := (hword.append (.of_kinds (kinds_textLexemes before))).append_enclose
      .comment hbody hnames
    simp only [List.append_assoc] at hcomment
    exact .closed (by simpa using hcomment)

theorem Punctuates.frames_eq (h : Punctuates s frame outer c lexed) :
    (lexed.kind = .operator ∨ lexed.kind = .punctuation) ∧
      ∃ bs, lexed.frames = frame.withBrackets bs :: outer := by
  cases h with
  | keep hkind _ _ _ => exact ⟨hkind, _, rfl⟩
  | opener | closer => exact ⟨.inr rfl, _, rfl⟩

theorem Reading.unfinished (hlexed : Reading s table frame outer c t lexed)
    (hframe : frame ≠ .quote) (h : Unfinished (frame :: outer) ks) :
    Unfinished lexed.frames (ks ++ [lexed.kind]) := by
  have hcode := Frame.zone_of_ne_quote hframe
  -- Most lexemes leave the construct as it is and are no name.
  have halone : ∀ {kind : TokenKind} {more : Nat}, kind ∈ Zone.code.kinds → kind ≠ .blockName →
      kind ≠ .name → Unfinished (frame :: outer)
        (ks ++ [(⟨kind, more, frame :: outer, none⟩ : Lexed).kind]) := by
    intro kind more hkind
    exact h.token (hcode ▸ hkind)
  cases hlexed with
  | layout hc =>
    have htext := (Lexeme.layoutAt_of_layout hc t).1
    generalize (Lexeme.layoutAt c t).1 = cls at htext ⊢
    cases cls with
    | text => exact absurd rfl htext
    | spaces | tabs | lineBreak => exact halone (by decide) nofun nofun
  | spread | arrow | operator | number | string => exact halone (by decide) nofun nofun
  | name _ _ _ =>
    unfold nameLexed
    split
    · have hkind : TokenKind.blockName ∈ Zone.code.kinds := by decide
      exact h.append hkind rfl rfl rfl fun _ hknows => hknows.append_blockName _
    · rename_i frame hother
      have hkind : TokenKind.name ∈ Zone.code.kinds := by decide
      refine h.append (hcode ▸ hkind) rfl rfl rfl fun _ hknows => hknows.append_name ?_
      rintro bs rfl
      exact hother bs rfl
  | punctuation _ _ _ _ hpunct =>
    obtain ⟨hkind, bs, hframes⟩ := (Punctuates.of_ok hpunct).frames_eq
    rw [hframes]
    have hkinds : lexed.kind ∈ Zone.code.kinds ∧ lexed.kind ≠ .blockName ∧ lexed.kind ≠ .name := by
      rcases hkind with hkind | hkind <;> rw [hkind] <;> decide
    refine h.append (hcode ▸ hkinds.1) (frame.start_withBrackets bs) (frame.stop_withBrackets bs)
      (frame.zone_withBrackets bs) fun _ hknows => ?_
    exact (hknows.append_other hkinds.2.1 hkinds.2.2).withBrackets bs
  | quote _ _ _ =>
    refine h.opens .quote ?_ nofun
    rw [zoneOf, hcode]
    exact .quote

theorem Inside.unfinished (hlexed : Inside s table frame outer c t lexed)
    (h : Unfinished (frame :: outer) ks) : Unfinished lexed.frames (ks ++ [lexed.kind]) := by
  cases hlexed with
  | endQuote hframe _ =>
    subst hframe
    exact h.close
  | interpolate hframe _ _ =>
    subst hframe
    exact h.opens (.interpolation []) .interpolation nofun
  | literal hframe _ _ =>
    subst hframe
    exact h.token (List.mem_singleton.2 rfl) nofun nofun
  | close hend =>
    rw [← Frame.stop_of_endAt? hend]
    exact h.close
  | read hframe _ hread => exact hread.unfinished hframe h

theorem Grammatical.step (h : s.Grammatical) (hstep : s.step table c t = .ok (s', rest)) :
    s'.Grammatical := by
  unfold Grammatical at h ⊢
  obtain ⟨hframes, hstep⟩ | ⟨frame, outer, lexed, hframes, hlexed, rfl, -⟩ := step_cases hstep
  · obtain ⟨new, hdata, hnew⟩ := data_of_ok hframes hstep
    rw [hnew, List.map_append]
    rw [hframes] at h
    exact hdata.unfinished h
  · rw [take_frames, emitted_take, List.map_append]
    rw [hframes] at h
    exact hlexed.unfinished h

theorem Grammatical.run (h : s.Grammatical) (hrun : run table s t = .ok s') : s'.Grammatical :=
  run_keeps (P := fun s _ => s.Grammatical) Grammatical.step h hrun

end Lexer

/-- A token that is only in code is added by a step inside of a construct, and no other with it; `I`
    is what the steps keep. -/
theorem tokenize_moment_inside {table : OperatorTable} {source : List Char} {t : Template}
    {I : Lexer → Prop} (hinit : I {})
    (hstep : ∀ {s s' : Lexer} {c : Char} {t rest : List Char}, I s →
      s.step table c t = .ok (s', rest) → I s')
    (h : tokenize table source = .ok t) {ls ms : List Lexeme} {v : List Char}
    (hsplit : t.stream.lexemes = ls ++ (k, v) :: ms)
    (hk : k ∉ .eof :: (Zone.template.kinds ++ Zone.comment.kinds ++
      [.commentStart, .commentEnd, .variableStart, .blockStart])) :
    ∃ s frame outer c u lexed final, I s ∧ s.frames = frame :: outer ∧
      Lexer.Inside s table frame outer c u lexed ∧ s.emitted = ls ∧ k = lexed.kind ∧
      v = c :: u.take lexed.more ∧
      s.step table c u = .ok (s.take frame lexed c u, u.drop lexed.more) ∧
      Lexer.run table (s.take frame lexed c u) (u.drop lexed.more) = .ok final ∧
      ls ++ (k, v) :: ms = final.emitted ++ [(.eof, [])] := by
  rw [List.mem_cons, not_or] at hk
  obtain ⟨s, c, u, s', rest, before, after, final, hI, hs, hls, hemitted, hrun, hfinal⟩ :=
    tokenize_moment hinit hstep h hsplit hk.1
  obtain ⟨hframes, hs⟩ | ⟨frame, outer, lexed, hframes, hlexed, rfl, rfl⟩ := Lexer.step_cases hs
  · obtain ⟨new, hdata, hnew⟩ := Lexer.data_of_ok hframes hs
    rw [hemitted, List.append_cancel_left_eq] at hnew
    exact absurd (hdata.kind_mem (l := (k, v)) (by simp [← hnew])) hk.2
  · rw [Lexer.emitted_take, List.append_cancel_left_eq] at hemitted
    obtain ⟨rfl, ⟨hkind, hvalue⟩, rfl⟩ : before = [] ∧
        (k = lexed.kind ∧ v = c :: u.take lexed.more) ∧ after = [] := by
      simpa [List.singleton_eq_append_iff] using hemitted
    rw [List.append_nil] at hls
    exact ⟨s, frame, outer, c, u, lexed, final, hI, hframes, hlexed, hls.symm, hkind, hvalue, hs,
      hrun, hfinal⟩

/-- The kinds of the tokens of a stream. -/
def TokenStream.kinds (s : TokenStream) : List TokenKind := s.tokens.toList.map Token.kind

/-- **Templates are grammatical.** The kinds of the tokens of a template are a word of the grammar,
    with the names of blocks in their places, and the end of file. -/
theorem tokenize_grammatical {table : OperatorTable} {source : List Char} {t : Template}
    (h : tokenize table source = .ok t) :
    ∃ direct ks, t.stream.kinds = ks ++ [.eof] ∧ Word .template direct ks := by
  obtain ⟨s, hrun, hframes, rfl⟩ := tokenize_eq_ok_iff.1 h
  have hstart : ({} : Lexer).Grammatical := .closed .nil
  have hword := hstart.run hrun
  unfold Lexer.Grammatical at hword
  rw [hframes] at hword
  cases hword with
  | @closed direct _ hword =>
    refine ⟨direct, _, ?_, hword⟩
    simp only [TokenStream.kinds, Lexer.toList_emit, List.map_append, List.map_cons, List.map_nil,
      Lexer.emitted, List.map_map]
    rfl

/-- A block with names in and around an interpolation, and a comment. -/
theorem tokenize_grammatical_block :
    ∃ t, tokenize OperatorTable.default
        "\x7b% set a = \"b#\x7bc\x7d\" %\x7d\x7b# d #\x7d".toList = .ok t ∧
      t.stream.kinds = [.blockStart, .spaces, .blockName, .spaces, .name, .spaces, .operator,
        .spaces, .quoteStart, .string, .interpolationStart, .name, .interpolationEnd, .quoteEnd,
        .spaces, .blockEnd, .commentStart, .commentSpaces, .commentText, .commentSpaces,
        .commentEnd, .eof] ∧
      ∃ direct ks, t.stream.kinds = ks ++ [.eof] ∧ Word .template direct ks := by
  obtain ⟨t, ht⟩ := exists_ok_of_isOk (x := tokenize OperatorTable.default
    "\x7b% set a = \"b#\x7bc\x7d\" %\x7d\x7b# d #\x7d".toList) (by decide +kernel)
  have hkinds : (tokenize OperatorTable.default
      "\x7b% set a = \"b#\x7bc\x7d\" %\x7d\x7b# d #\x7d".toList).toOption.map (·.stream.kinds) =
        some [.blockStart, .spaces, .blockName, .spaces, .name, .spaces, .operator, .spaces,
          .quoteStart, .string, .interpolationStart, .name, .interpolationEnd, .quoteEnd, .spaces,
          .blockEnd, .commentStart, .commentSpaces, .commentText, .commentSpaces, .commentEnd,
          .eof] := by
    decide +kernel
  rw [ht] at hkinds
  exact ⟨t, ht, Option.some.inj hkinds, tokenize_grammatical ht⟩

end TwigStyle
