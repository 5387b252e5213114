import TwigStyle.Proofs.Places

/-!
# Reading behind other tokens

A lexer that has tokens before it reads as one that starts afresh, except that places and indices
are counted from where it stands.  `Offset` says how much stands before, `Behind` relates the two
lexers, and every function of the lexer commutes with the shift: `inside_behind` inside of
constructs, `step_behind` for a step and `run_behind` for a run, failures included.
-/

namespace TwigStyle

/-- How many tokens, line breaks and characters of the current line stand in front of a text. -/
structure Offset where
  tokens : Nat
  lines : Nat
  columns : Nat
deriving DecidableEq, Repr

namespace Offset

variable (o : Offset)

/-- A place in a text, counted from the start of the file. -/
def place (p : Position) : Position :=
  ⟨p.line + o.lines, if p.line = 1 then p.column + o.columns else p.column⟩

def token (t : Token) : Token :=
  { t with position := o.place t.position, related := t.related.map (· + o.tokens) }

def bracket (b : OpenBracket) : OpenBracket :=
  ⟨b.shape, b.index + o.tokens, b.line + o.lines⟩

abbrev frame (frame : Frame) : Frame := frame.map o.bracket

theorem shape_bracket (b : OpenBracket) : (o.bracket b).shape = b.shape := rfl

def lexed (l : Lexed) : Lexed :=
  ⟨l.kind, l.more, l.frames.map o.frame, l.partner.map (· + o.tokens)⟩

/-- A failure with its line counted from the start of the file. -/
def error : LexError → LexError
  | .unexpectedCharacter c line => .unexpectedCharacter c (line + o.lines)
  | .unclosedComment line => .unclosedComment (line + o.lines)
  | .unclosedBracket c line => .unclosedBracket c (line + o.lines)
  | .unexpectedEnd frame line => .unexpectedEnd (o.frame frame) (line + o.lines)

def result : Except LexError Lexed → Except LexError Lexed
  | .ok l => .ok (o.lexed l)
  | .error e => .error (o.error e)

/-! ### Places -/

theorem place_after {p : Position} (hp : 1 ≤ p.line) (v : List Char) :
    o.place (p.after v) = (o.place p).after v := by
  rw [Position.after_eq, Position.after_eq]
  simp only [place, Position.mk.injEq]
  refine ⟨by omega, ?_⟩
  cases hbreak : v.any endsLine with
  | true =>
    have hpos : lineBreakCount v ≠ 0 := by
      rw [ne_eq, lineBreakCount_eq_zero_iff, hbreak]
      exact nofun
    rw [if_neg (by omega)]
    rfl
  | false =>
    rw [lineBreakCount_eq_zero_iff.2 hbreak]
    simp only [Bool.false_eq_true, if_false, Nat.add_zero]
    split <;> omega

end Offset

namespace Lexer

variable {front : List Token} {o : Offset} {s s' : Lexer} {table : OperatorTable} {frame : Frame} {outer : List Frame}
  {c : Char} {t rest : List Char} {lexed : Lexed}

/-- `s'` stands behind the tokens `front` where `s` stands at the start of the file.  A name at the
    start of the text belongs to no attribute and no filter. -/
structure Behind (front : List Token) (o : Offset) (s s' : Lexer) : Prop where
  length : front.length = o.tokens
  noAccess : endsAccess (front.map Token.lexeme) = false
  tokens : s'.tokens.toList = front ++ s.tokens.toList.map o.token
  position : s'.position = o.place s.position
  line : 1 ≤ s.position.line
  frames : s'.frames = s.frames.map o.frame
  verbatim : s'.verbatim = s.verbatim

theorem Behind.size (h : Behind front o s s') : s'.tokens.size = s.tokens.size + o.tokens := by
  rw [← Array.length_toList, h.tokens, List.length_append, List.length_map, h.length,
    Array.length_toList, Nat.add_comm]

theorem Behind.names (h : Behind front o s s') : s'.namesAttribute = s.namesAttribute := by
  have hemitted : s'.emitted = front.map Token.lexeme ++ s.emitted := by
    rw [emitted, h.tokens, List.map_append, List.map_map]
    rfl
  have hnone : endsAccess (front.map Token.lexeme) = endsAccess [] := h.noAccess
  rw [namesAttribute_eq, namesAttribute_eq, hemitted, endsAccess_append s.emitted hnone,
    List.nil_append]

/-! ### Inside of constructs -/

theorem operator?_behind (h : Behind front o s s') :
    s'.operator? table c t = s.operator? table c t := operator?_congr h.names

theorem nameLexed_behind :
    nameLexed (o.frame frame) (outer.map o.frame) c t = o.lexed (nameLexed frame outer c t) := by
  cases frame with
  | block name bs => cases name <;> rfl
  | «variable» | quote | interpolation => rfl

section

variable (h : Behind front o s s')
include h

theorem openHere_behind (shape : BracketShape) :
    s'.openHere shape = o.bracket (s.openHere shape) := by
  simp only [openHere, Offset.bracket, h.size, h.position, Offset.place]

theorem closer_behind {shape : BracketShape} :
    s'.closer (o.frame frame) (outer.map o.frame) c shape =
      o.result (s.closer frame outer c shape) := by
  unfold closer
  rw [Frame.brackets_map, dropTernaries_map o.shape_bracket, h.position]
  cases dropTernaries frame.brackets with
  | nil => rfl
  | cons b bs =>
    simp only [List.map_cons, Frame.withBrackets_map, o.shape_bracket]
    by_cases hshape : b.shape = shape
    · rw [if_pos hshape, if_pos hshape]
      rfl
    · rw [if_neg hshape, if_neg hshape]
      rfl

theorem punctuation?_behind : s'.punctuation? (o.frame frame) (outer.map o.frame) c =
      (s.punctuation? frame outer c).map o.result := by
  unfold punctuation?
  simp only [Frame.brackets_map, openHere_behind h, ← List.map_cons,
    dropTernaries_map o.shape_bracket, Frame.withBrackets_map, closer_behind h]
  split
  · rfl
  split
  · rcases frame.brackets with _ | ⟨⟨shape, i, line⟩, bs⟩
    · rfl
    · cases shape with
      | ternary =>
        simp only [List.map_cons, Offset.bracket, Frame.withBrackets_map]
        rfl
      | round | square | curly => rfl
  split
  · rfl
  split
  · rfl
  split
  · rfl
  · rfl
  · rfl

theorem expression_behind : s'.expression table (o.frame frame) (outer.map o.frame) c t =
      o.result (s.expression table frame outer c t) := by
  unfold expression
  rw [operator?_behind h, punctuation?_behind h, nameLexed_behind, h.position]
  split
  · rfl
  split
  · rfl
  split
  · rfl
  split
  · rfl
  split
  · rfl
  split
  · rfl
  cases s.punctuation? frame outer c with
  | some result => rfl
  | none =>
    simp only [Option.map_none]
    split
    · split <;> rfl
    · split <;> rfl

theorem inside_behind : s'.inside table (o.frame frame) (outer.map o.frame) c t =
      o.result (s.inside table frame outer c t) := by
  by_cases hframe : frame = .quote
  · subst hframe
    unfold inside
    simp only [Offset.frame, Frame.map]
    split
    · rfl
    split
    · rfl
    · rfl
  · have hframe' : o.frame frame ≠ .quote := fun h => hframe ((Frame.map_eq_quote_iff frame).1 h)
    rw [inside_of_ne_quote hframe, inside_of_ne_quote hframe',
      Frame.endAt?_map frame o.shape_bracket, expression_behind h]
    split <;> rfl

/-! ### Emitting -/

theorem Behind.emit (kind : TokenKind) (value : List Char) :
    Behind front o (s.emit kind value) (s'.emit kind value) where
  length := h.length
  noAccess := h.noAccess
  tokens := by
    simp only [Lexer.emit, Array.toList_push, h.tokens, List.map_append, List.append_assoc,
      h.position]
    rfl
  position := by
    simp only [Lexer.emit, h.position]
    exact (o.place_after h.line value).symm
  line := by
    simp only [Lexer.emit, Position.after_eq]
    exact Nat.le_add_right_of_le h.line
  frames := h.frames
  verbatim := h.verbatim

theorem Behind.emitAll (pieces : List Lexeme) :
    Behind front o (s.emitAll pieces) (s'.emitAll pieces) := by
  induction pieces generalizing s s' with
  | nil => exact h
  | cons p pieces ih => exact ih (h.emit p.1 p.2)

theorem Behind.set (frames : List Frame) (verbatim : Bool) (ds ds' : List ViolationId) :
    Behind front o ⟨s.tokens, s.position, frames, verbatim, ds⟩
      ⟨s'.tokens, s'.position, frames.map o.frame, verbatim, ds'⟩ :=
  ⟨h.length, h.noAccess, h.tokens, h.position, h.line, rfl, rfl⟩

end

theorem modify_behind (h : front.length = o.tokens) {g g' : Token → Token}
    (hg : ∀ t, g' (o.token t) = o.token (g t)) (ts : List Token) (i : Nat) :
    (front ++ ts.map o.token).modify (i + o.tokens) g' = front ++ (ts.modify i g).map o.token := by
  have hmap : (ts.map o.token).modify i g' = (ts.modify i g).map o.token := by
    induction ts generalizing i with
    | nil => simp
    | cons t ts ih => cases i <;> simp [hg, ih]
  have hskip : ∀ front us : List Token, (front ++ us).modify (i + front.length) g' =
      front ++ us.modify i g' := by
    intro front us
    induction front with
    | nil => rfl
    | cons t front ih =>
      rw [List.cons_append, List.length_cons, ← Nat.add_assoc, List.modify_succ_cons, ih,
        List.cons_append]
  rw [← h, hskip, hmap]

theorem Behind.pair (h : Behind front o s s') (first second : Nat) :
    Behind front o (s.pair first second)
      (s'.pair (first + o.tokens) (second + o.tokens)) := by
  refine ⟨h.length, h.noAccess, ?_, h.position, h.line, h.frames, h.verbatim⟩
  rw [toList_pair, toList_pair, h.tokens, modify_behind h.length, modify_behind h.length]
  · exact fun _ => rfl
  · exact fun _ => rfl

theorem Behind.take (h : Behind front o s s') :
    Behind front o (s.take frame lexed c t) (s'.take (o.frame frame) (o.lexed lexed) c t) := by
  unfold Lexer.take
  have hemit : Behind front o
      (Lexer.emit ⟨s.tokens, s.position, lexed.frames,
        s.verbatim || startsVerbatim frame lexed.kind, s.directives⟩ lexed.kind
          (c :: t.take lexed.more))
      (Lexer.emit ⟨s'.tokens, s'.position, lexed.frames.map o.frame,
        s'.verbatim || startsVerbatim (o.frame frame) lexed.kind, s'.directives⟩ lexed.kind
          (c :: t.take lexed.more)) := by
    rw [startsVerbatim_map, h.verbatim]
    exact (h.set _ _ _ _).emit _ _
  cases hpartner : lexed.partner with
  | none =>
    simp only [Offset.lexed, hpartner, Option.map_none]
    exact hemit
  | some first =>
    simp only [Offset.lexed, hpartner, Option.map_some, h.size]
    exact hemit.pair _ _

/-! ### Steps and runs -/

/-- Two outcomes that differ by what stands in front. -/
inductive Parallel (o : Offset) {α : Type} (related : α → α → Prop) :
    Except LexFailure α → Except LexFailure α → Prop
  | ok {a a' : α} (h : related a a') : Parallel o related (.ok a) (.ok a')
  | error {e e' : LexFailure} (h : e'.error = o.error e.error) :
    Parallel o related (.error e) (.error e')

/-- Lexers behind each other with the same text left. -/
def SameRest (front : List Token) (o : Offset) (a a' : Lexer × List Char) : Prop :=
  Behind front o a.1 a'.1 ∧ a'.2 = a.2

theorem comment_behind (h : Behind front o s s') (start : List Char) :
    Parallel o (SameRest front o) (s.comment start t) (s'.comment start t) := by
  unfold comment
  simp only
  split
  · refine .error ?_
    simp only [h.position]
    rfl
  · refine .ok ⟨?_, rfl⟩
    refine Behind.emit (Behind.emitAll ?_ _) _ _
    have hemit := h.emit .commentStart start
    exact { hemit with }

theorem data_behind (h : Behind front o s s') :
    Parallel o (SameRest front o) (s.data t) (s'.data t) := by
  unfold data
  rw [h.verbatim]
  rcases Delimiter.find s.verbatim 0 t with ⟨before, found⟩
  have htext := h.emitAll ((Lexeme.layoutPieces before).map fun p => (p.1.codeKind, p.2))
  simp only
  split
  · exact .ok ⟨htext, rfl⟩
  · exact .ok ⟨(htext.emit _ _).set [.variable []] false _ _, rfl⟩
  · exact .ok ⟨(htext.emit _ _).set [.block none []] false _ _, rfl⟩
  · refine comment_behind ?_ _
    exact { htext with verbatim := rfl }

theorem step_behind (h : Behind front o s s') (table : OperatorTable) (c : Char) (t : List Char) :
    Parallel o (SameRest front o) (s.step table c t) (s'.step table c t) := by
  unfold step
  rw [h.frames]
  cases s.frames with
  | nil => exact data_behind h
  | cons frame outer =>
    simp only [List.map_cons]
    rw [inside_behind h]
    cases s.inside table frame outer c t with
    | error e => exact .error rfl
    | ok lexed => exact .ok ⟨h.take, rfl⟩

/-- **A text is read behind other tokens as it is read alone.** -/
theorem run_behind (h : Behind front o s s') (table : OperatorTable) (t : List Char) :
    Parallel o (Behind front o) (run table s t) (run table s' t) := by
  fun_induction run table s t generalizing s' with
  | case1 s =>
    rw [run]
    exact .ok h
  | case2 s c t e hstep =>
    have hparallel := step_behind h table c t
    rw [hstep] at hparallel
    generalize hstep' : s'.step table c t = r at hparallel
    cases hparallel with
    | error herror =>
      rw [run_error hstep']
      exact .error herror
  | case3 s c t s₁ rest hstep ih =>
    have hparallel := step_behind h table c t
    rw [hstep] at hparallel
    generalize hstep' : s'.step table c t = r at hparallel
    cases hparallel with
    | @ok _ a h =>
      obtain ⟨hbehind, hrest⟩ := h
      obtain ⟨s₁', rest'⟩ := a
      obtain rfl : rest' = rest := hrest
      rw [run_cons hstep']
      exact ih hbehind

end Lexer

end TwigStyle
