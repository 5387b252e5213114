import Mathlib.Data.List.Chain
import TwigStyle.Proofs.Trailing

/-!
# Words and layout are cut into whole runs

The rules on layout measure and rewrite single tokens, so they rely on every run of spaces and every
run of tabs being one token.  Text is cut up to the next delimiter that counts, a comment up to its
end, and code by another function than these two.

What the text of a run is like follows from what is known about layout, words and line breaks
(`Lexeme.Shaped`).  That two runs of one kind never stand side by side is a chain over the tokens:
within a step it comes of `layoutPieces`, whose pieces change their class all the time
(`isChain_layoutPieces`), and between two steps of the way in which a step ends (`Sealed`).
-/

namespace TwigStyle

variable {table : OperatorTable}

/-- The kinds of tokens that are runs: words, spaces and tabs, in code and in comments. -/
def TokenKind.runs : List TokenKind := [spaces, tabs, text, commentSpaces, commentTabs, commentText]

/-- Two lexemes that are not runs of the same kind. -/
def Lexeme.Separate (a b : Lexeme) : Prop := a.1 = b.1 → a.1 ∉ TokenKind.runs

/-- A word or layout has the text that its kind says; `rest` is the source behind it. -/
structure Lexeme.Shaped (l : Lexeme) (rest : List Char) : Prop where
  spaces : l.1 = .spaces ∨ l.1 = .commentSpaces → l.2 ≠ [] ∧ ∀ c ∈ l.2, c = ' '
  tabs : l.1 = .tabs ∨ l.1 = .commentTabs → l.2 ≠ [] ∧ ∀ c ∈ l.2, c = '\t'
  lineBreak : l.1 = .lineBreak ∨ l.1 = .commentLineBreak →
    l.2 = ['\r', '\n'] ∨ l.2 = ['\n'] ∨ l.2 = ['\r'] ∧ rest.head? ≠ some '\n'
  text : l.1 = .text ∨ l.1 = .commentText → ∀ c ∈ l.2, c ≠ ' ' ∧ c ≠ '\t' ∧ c ≠ '\r' ∧ c ≠ '\n'

/-! ### Pieces of text -/

namespace Lexeme

theorem layoutAt_class (c : Char) (t : List Char) :
    ((layoutAt c t).1 = .spaces ↔ c = ' ') ∧ ((layoutAt c t).1 = .tabs ↔ c = '\t') ∧
      ((layoutAt c t).1 = .text ↔ Text.isLayout c = false) := by
  cases hc : Text.isLayout c with
  | false =>
    rw [layoutAt_of_solid hc]
    simp only [Text.isLayout, Bool.or_eq_false_iff, beq_eq_false_iff_ne] at hc
    simp [hc]
  | true =>
    simp only [Text.isLayout, Bool.or_eq_true, beq_iff_eq] at hc
    rcases hc with ((rfl | rfl) | rfl) | rfl <;> simp [layoutAt]

theorem layoutAt_next {c d : Char} {t u : List Char} (hdrop : t.drop (layoutAt c t).2 = d :: u)
    (hclass : (layoutAt c t).1 = (layoutAt d u).1) : (layoutAt c t).1 = .lineBreak := by
  have hnext : ∀ p : Char → Bool, (layoutAt c t).2 = runLength p t → p d = false := by
    intro p hp
    rw [hp] at hdrop
    exact head?_drop_runLength p t d (by rw [hdrop]; rfl)
  obtain ⟨hspaces, htabs, htext⟩ := layoutAt_class c t
  obtain ⟨hspaces', htabs', htext'⟩ := layoutAt_class d u
  cases hcls : (layoutAt c t).1 with
  | lineBreak => rfl
  | spaces =>
    obtain rfl := hspaces.1 hcls
    obtain rfl := hspaces'.1 (hclass ▸ hcls)
    exact absurd (hnext (· == ' ') rfl) (by decide)
  | tabs =>
    obtain rfl := htabs.1 hcls
    obtain rfl := htabs'.1 (hclass ▸ hcls)
    exact absurd (hnext (· == '\t') rfl) (by decide)
  | text =>
    have hd := htext'.1 (hclass ▸ hcls)
    have hsame := hnext (!Text.isLayout ·) (by rw [layoutAt_of_solid (htext.1 hcls)])
    rw [hd] at hsame
    cases hsame

/-- Two pieces of one class stand side by side only if they are line breaks. -/
theorem isChain_layoutPieces (t : List Char) :
    (layoutPieces t).IsChain fun p q => p.1 = q.1 → p.1 = .lineBreak := by
  fun_induction layoutPieces t with
  | case1 => exact .nil
  | case2 c t more ih =>
    refine List.isChain_cons.2 ⟨?_, ih⟩
    intro q hq hclass
    cases hdrop : t.drop more with
    | nil => rw [hdrop, layoutPieces] at hq; cases hq
    | cons d u =>
      rw [hdrop, layoutPieces] at hq
      cases hq
      exact layoutAt_next hdrop hclass

theorem Genuine.isRun {l : Lexeme} {cls : LayoutClass} (h : l.Genuine) (hcls : cls ≠ .text)
    (hk : l.1 = cls.codeKind ∨ l.1 = cls.commentKind) : cls.IsRun l.2 := by
  have hlayout : TokenKind.layout.contains l.1 = true := by
    rcases hk with hk | hk <;> rw [hk] <;> cases cls <;> first | rfl | exact absurd rfl hcls
  obtain ⟨cls', hrun, hk'⟩ := h hlayout
  have hsame : cls' = cls := by
    rcases hk with hk | hk <;> rw [hk] at hk' <;> revert hk' <;> cases cls <;> cases cls' <;> decide
  exact hsame ▸ hrun

end Lexeme

theorem isChain_pieces {kind : Lexeme.LayoutClass → TokenKind}
    (hkind : ∀ a b, kind a = kind b → a = b) (hbreak : kind .lineBreak ∉ TokenKind.runs) (t : List Char) :
    ((Lexeme.layoutPieces t).map fun (cls, v) => ((kind cls, v) : Lexeme)).IsChain
      Lexeme.Separate := by
  rw [List.isChain_map]
  refine (Lexeme.isChain_layoutPieces t).imp fun p q hpq hsame => ?_
  change kind p.1 ∉ _
  rw [hpq (hkind p.1 q.1 hsame)]
  exact hbreak

theorem isChain_textLexemes (t : List Char) : (textLexemes t).IsChain Lexeme.Separate :=
  isChain_pieces (by intro a b h; cases a <;> cases b <;> first | rfl | cases h) (by decide) t

theorem isChain_commentLexemes (t : List Char) : (commentLexemes t).IsChain Lexeme.Separate :=
  isChain_pieces (by intro a b h; cases a <;> cases b <;> first | rfl | cases h) (by decide) t

namespace Lexer

variable {s s' : Lexer} {table : OperatorTable} {frame : Frame} {outer : List Frame} {c : Char}
  {t rest v : List Char} {lexed : Lexed} {new ls : List Lexeme} {k : TokenKind}

/-! ### Steps -/

/-- What is behind a lexeme does not go on with it: if the lexeme is a run, then there is no more
    text, or the text starts with another character. -/
def Sealed (l : Lexeme) (rest : List Char) : Prop :=
  l.1 ∈ TokenKind.runs → rest = [] ∨ l.1 = .spaces ∧ rest.head? ≠ some ' ' ∨
    l.1 = .tabs ∧ rest.head? ≠ some '\t'

theorem isChain_concat (h : ls.IsChain Lexeme.Separate) (hk : k ∉ TokenKind.runs) :
    (ls ++ [(k, v)]).IsChain Lexeme.Separate := by
  refine List.isChain_append.2 ⟨h, .singleton _, ?_⟩
  intro a _ b hb hsame
  cases hb
  rw [hsame]
  exact hk

theorem isChain_cons_of_not_run (h : ls.IsChain Lexeme.Separate) (hk : k ∉ TokenKind.runs) :
    ((k, v) :: ls).IsChain Lexeme.Separate :=
  List.isChain_cons.2 ⟨fun _ _ _ => hk, h⟩

/-- Template text is cut into whole runs, and what comes last is a delimiter or the end of all. -/
theorem Data.isChain {verbatim verbatim' : Bool} {frames : List Frame}
    (h : Data verbatim t new frames verbatim' rest) :
    new.IsChain Lexeme.Separate ∧ ∀ l ∈ new.getLast?, Sealed l rest := by
  have hlast : ∀ {ls : List Lexeme} {k : TokenKind} {v : List Char}, k ∉ TokenKind.runs →
      ∀ l ∈ (ls ++ [(k, v)]).getLast?, Sealed l rest := by
    intro ls k v hk l hl hrun
    rw [List.getLast?_concat] at hl
    cases hl
    exact absurd hrun hk
  cases h with
  | text => exact ⟨isChain_textLexemes _, fun _ _ _ => .inl rfl⟩
  | «variable» | block =>
    exact ⟨isChain_concat (isChain_textLexemes _) (by decide), hlast (by decide)⟩
  | @comment before value after body stop rest _ _ =>
    have hbody : ((.commentStart, value) :: commentLexemes body).IsChain Lexeme.Separate :=
      isChain_cons_of_not_run (isChain_commentLexemes body) (by decide)
    refine ⟨isChain_concat (List.isChain_append.2 ⟨isChain_textLexemes before, hbody, ?_⟩)
      (by decide), hlast (by decide)⟩
    intro a _ b hb hsame
    cases hb
    rw [hsame]
    exact show TokenKind.commentStart ∉ TokenKind.runs by decide

theorem Inside.sealed (h : Inside s table frame outer c t lexed) :
    Sealed (lexed.kind, c :: t.take lexed.more) (t.drop lexed.more) := by
  intro hrun
  -- there are no words in code
  have hkinds : ∀ k ∈ expressionKinds ++
      [.quoteEnd, .interpolationStart, .variableEnd, .blockEnd, .interpolationEnd],
      k ∈ TokenKind.runs → TokenKind.layout.contains k = true := by decide
  obtain ⟨-, hc, rfl⟩ := h.of_layout (hkinds _ h.kind_mem hrun)
  have hnext : ∀ d : Char, (t.drop (Lexeme.runLength (· == d) t)).head? ≠ some d := by
    intro d hd
    simpa using Lexeme.head?_drop_runLength (· == d) t d hd
  simp only [Text.isLayout, Bool.or_eq_true, beq_iff_eq] at hc
  rcases hc with ((rfl | rfl) | rfl) | rfl
  · exact .inr (.inl ⟨rfl, hnext ' '⟩)
  · exact .inr (.inr ⟨rfl, hnext '\t'⟩)
  · exact absurd hrun (show TokenKind.lineBreak ∉ TokenKind.runs by decide)
  · exact absurd hrun (show TokenKind.lineBreak ∉ TokenKind.runs by decide)

/-- What a step adds: whole runs, and nothing that goes on with the last one of them. -/
theorem step_isChain (h : s.step table c t = .ok (s', rest)) :
    ∃ new, s'.emitted = s.emitted ++ new ∧ new.IsChain Lexeme.Separate ∧
      ∀ l ∈ new.getLast?, Sealed l rest := by
  refine step_adds (P := fun _ new rest => new.IsChain Lexeme.Separate ∧
    ∀ l ∈ new.getLast?, Sealed l rest) Data.isChain (fun hlexed => ⟨.singleton _, ?_⟩) h
  intro l hl
  cases hl
  exact hlexed.sealed

/-! ### Runs of the lexer -/

/-- Lexemes without two runs of one kind side by side, before a text that does not go on with the
    last one. -/
structure Whole (ls : List Lexeme) (rest : List Char) : Prop where
  chain : ls.IsChain Lexeme.Separate
  sealed : ∀ l ∈ ls.getLast?, Sealed l rest

theorem head?_of_genuine {l : Lexeme} (hgenuine : l.Genuine) (hne : l.2 ≠ [])
    (htext : spell (l :: ls) ++ rest = c :: t) :
    (l.1 = .spaces → c = ' ') ∧ (l.1 = .tabs → c = '\t') := by
  obtain ⟨k, v⟩ := l
  cases v with
  | nil => exact absurd rfl hne
  | cons d v =>
    obtain ⟨rfl, -⟩ := List.cons.inj htext
    constructor
    · intro hk
      have hrun : Lexeme.LayoutClass.spaces.IsRun (d :: v) := hgenuine.isRun nofun (.inl hk)
      exact hrun d List.mem_cons_self
    · intro hk
      have hrun : Lexeme.LayoutClass.tabs.IsRun (d :: v) := hgenuine.isRun nofun (.inl hk)
      exact hrun d List.mem_cons_self

theorem Whole.step (h : Whole s.emitted (c :: t)) (hstep : s.step table c t = .ok (s', rest)) :
    Whole s'.emitted rest := by
  obtain ⟨new, hnew, hchain, hsealed⟩ := step_isChain hstep
  obtain ⟨new₁, hnew₁, htext, hsolid⟩ := step_emits hstep
  obtain rfl : new = new₁ := List.append_cancel_left (hnew.symm.trans hnew₁)
  obtain ⟨new₂, hnew₂, hgenuine⟩ := step_forall Data.genuine Inside.genuine hstep
  obtain rfl : new = new₂ := List.append_cancel_left (hnew.symm.trans hnew₂)
  cases new with
  | nil =>
    have hrest : rest = c :: t := htext
    have := step_rest_le hstep
    rw [hrest, List.length_cons] at this
    omega
  | cons b new =>
    rw [hnew]
    constructor
    · refine List.isChain_append.2 ⟨h.chain, hchain, ?_⟩
      intro a ha b' hb hsame hrun
      cases hb
      obtain ⟨hspaces, htabs⟩ :=
        head?_of_genuine (hgenuine b List.mem_cons_self) (hsolid b List.mem_cons_self).2 htext
      -- the last lexeme would go on with the first one of this step
      rcases h.sealed a ha hrun with hnil | ⟨hkind, hhead⟩ | ⟨hkind, hhead⟩
      · cases hnil
      · exact hhead (congrArg some (hspaces (hsame ▸ hkind)))
      · exact hhead (congrArg some (htabs (hsame ▸ hkind)))
    · rw [List.getLast?_append_of_ne_nil _ (List.cons_ne_nil b new)]
      exact hsealed

theorem Whole.run (h : Whole s.emitted t) (hrun : run table s t = .ok s') :
    Whole s'.emitted [] :=
  run_keeps (P := fun s t => Whole s.emitted t) Whole.step h hrun

end Lexer

theorem tokenize_isChain {source : List Char} {t : Template} (h : tokenize table source = .ok t) :
    t.stream.lexemes.IsChain Lexeme.Separate := by
  obtain ⟨s, hrun, -, rfl⟩ := tokenize_eq_ok_iff.1 h
  have hwhole : Lexer.Whole s.emitted [] := Lexer.Whole.run (s := {}) ⟨.nil, nofun⟩ hrun
  change (s.emit .eof []).emitted.IsChain Lexeme.Separate
  rw [Lexer.emitted_emit]
  exact Lexer.isChain_concat hwhole.chain (by decide)

/-! ### The shape of a token -/

theorem Lexeme.shaped_of {l : Lexeme} {rest : List Char} (hgenuine : l.Genuine)
    (hhoused : l.Housed table) (hne : l.1 ≠ .eof → l.2 ≠ [])
    (hunsplit : l.2.getLast? = some '\r' → rest.head? ≠ some '\n') : l.Shaped rest := by
  refine ⟨?_, ?_, ?_, ?_⟩
  · intro hk
    have hrun : LayoutClass.spaces.IsRun l.2 := hgenuine.isRun nofun hk
    exact ⟨hne (by rcases hk with hk | hk <;> rw [hk] <;> decide), hrun⟩
  · intro hk
    have hrun : LayoutClass.tabs.IsRun l.2 := hgenuine.isRun nofun hk
    exact ⟨hne (by rcases hk with hk | hk <;> rw [hk] <;> decide), hrun⟩
  · intro hk
    have hbreak : LayoutClass.lineBreak.IsRun l.2 := hgenuine.isRun nofun hk
    simp only [LayoutClass.IsRun, List.mem_cons, List.not_mem_nil, or_false] at hbreak
    rcases hbreak with heq | heq | heq
    · exact .inr (.inl heq)
    · exact .inr (.inr ⟨heq, hunsplit (by rw [heq]; rfl)⟩)
    · exact .inl heq
  · intro hk c hc
    have hsolid : Text.isLayout c = false := by
      apply Bool.eq_false_iff.2
      intro hlayout
      have hhouse := hhoused c hc hlayout
      rcases hk with hk | hk <;> simp [hk, TokenKind.layout] at hhouse
    simpa [Text.isLayout, and_assoc] using hsolid

/-- Every run of words, spaces or tabs is one token, and a token of such a kind is a run and nothing
    else; a carriage return that is a line break has no line feed behind it. -/
theorem tokenize_whole_runs {table : OperatorTable} {source : List Char} {t : Template}
    (h : tokenize table source = .ok t) :
    (∀ (before : List Token) (token : Token) (after : List Token),
      t.stream.tokens.toList = before ++ token :: after →
      ∃ rest, source = spell (before.map Token.lexeme) ++ (token.value ++ rest) ∧
        token.lexeme.Shaped rest) ∧
      ∀ (before : List Token) (a b : Token) (after : List Token),
        t.stream.tokens.toList = before ++ a :: b :: after → a.kind = b.kind →
        a.kind ∉ [.spaces, .tabs, .text, .commentSpaces, .commentTabs, .commentText] := by
  constructor
  · intro before token after hsplit
    have hlexemes : t.stream.lexemes =
        before.map Token.lexeme ++ token.lexeme :: after.map Token.lexeme := by
      rw [TokenStream.lexemes, hsplit, List.map_append, List.map_cons]
    have hmem : token.lexeme ∈ t.stream.lexemes := by
      rw [hlexemes]
      simp
    have hsource : source = spell t.stream.lexemes := by
      obtain ⟨ls, hls, rfl, -⟩ := tokenize_lexemes h
      rw [hls, spell_append]
      simp
    have hunsplit := tokenize_unsplit h
    rw [hlexemes] at hunsplit
    refine ⟨spell (after.map Token.lexeme), ?_, ?_⟩
    · rw [hsource, hlexemes, spell_append, spell_cons]
      rfl
    · refine Lexeme.shaped_of (tokenize_gaps h _ hmem) (tokenize_housed h _ hmem) ?_ ?_
      · exact fun hkind => (tokenize_regular h).value _ hmem hkind
      · have hcut := (unsplit_append.1 hunsplit).2.1
        rwa [List.append_nil] at hcut
  · intro before a b after hsplit hsame
    have hchain := tokenize_isChain h
    rw [TokenStream.lexemes, hsplit, List.map_append, List.isChain_append] at hchain
    exact (List.isChain_cons_cons.1 hchain.2.1).1 hsame

/-- Runs in text, in code and in a comment, and a carriage return at the end. -/
theorem tokenize_whole_runs_mixed :
    ∃ t, tokenize OperatorTable.default
        "a  \t\x7b\x7b \t b\r\n\x7d\x7d\x7b# c\t\td  #\x7d\r".toList = .ok t ∧
      (∀ (before : List Token) (token : Token) (after : List Token),
        t.stream.tokens.toList = before ++ token :: after →
        ∃ rest, "a  \t\x7b\x7b \t b\r\n\x7d\x7d\x7b# c\t\td  #\x7d\r".toList =
            spell (before.map Token.lexeme) ++ (token.value ++ rest) ∧
          token.lexeme.Shaped rest) ∧
      ∀ (before : List Token) (a b : Token) (after : List Token),
        t.stream.tokens.toList = before ++ a :: b :: after → a.kind = b.kind →
        a.kind ∉ [.spaces, .tabs, .text, .commentSpaces, .commentTabs, .commentText] := by
  have hok : (tokenize OperatorTable.default
      "a  \t\x7b\x7b \t b\r\n\x7d\x7d\x7b# c\t\td  #\x7d\r".toList).isOk = true := by
    decide +kernel
  obtain ⟨t, ht⟩ := exists_ok_of_isOk hok
  exact ⟨t, ht, tokenize_whole_runs ht⟩

end TwigStyle
