import TwigStyle.Proofs.Reading

/-!
# Cutting a template loses nothing

The lexemes of a template (kind and value of each token) concatenate to its source, and the only
empty one is the end of file.

What a step adds is stated once, in `step_emits`: it appends lexemes that spell exactly the text
it takes, each of them non-empty and none of them the end of file.  The law for a whole run follows
by induction on the run, and the end of file is what `finish` adds.
-/

namespace TwigStyle

variable {ls ms : List Lexeme} {table : OperatorTable} {rest source : List Char} {t : Template}
  {R : Lexeme → List Char → Prop} {l : Lexeme}

/-- What a token is and how it is spelled. -/
abbrev Lexeme : Type := TokenKind × List Char

/-- Kind and value of a token. -/
def Token.lexeme (t : Token) : Lexeme := (t.kind, t.value)

/-- The text that some lexemes spell. -/
def spell (ls : List Lexeme) : List Char := (ls.map (·.2)).flatten

@[simp] theorem spell_nil : spell [] = [] := rfl

@[simp] theorem spell_cons (l : Lexeme) (ls : List Lexeme) :
    spell (l :: ls) = l.2 ++ spell ls := rfl

@[simp] theorem spell_append (ls ms : List Lexeme) :
    spell (ls ++ ms) = spell ls ++ spell ms := by
  simp only [spell, List.map_append, List.flatten_append]

/-- Lexemes with a value, none of them the end of file. -/
def Solid (ls : List Lexeme) : Prop := ∀ l ∈ ls, l.1 ≠ .eof ∧ l.2 ≠ []

/-- Every lexeme is in a relation with the text behind it; `rest` is the text behind all of them. -/
def Followed (R : Lexeme → List Char → Prop) : List Lexeme → List Char → Prop
  | [], _ => True
  | l :: ls, rest => R l (spell ls ++ rest) ∧ Followed R ls rest

theorem followed_append :
    Followed R (ls ++ ms) rest ↔ Followed R ls (spell ms ++ rest) ∧ Followed R ms rest := by
  induction ls with
  | nil => simp [Followed]
  | cons l ls ih => simp [Followed, ih, and_assoc]

theorem Solid.append (hl : Solid ls) (hm : Solid ms) : Solid (ls ++ ms) := by
  intro l hmem
  rcases List.mem_append.1 hmem with h | h
  · exact hl l h
  · exact hm l h

theorem Solid.singleton (hk : l.1 ≠ .eof) (hv : l.2 ≠ []) : Solid [l] := by
  intro m hm
  rw [List.mem_singleton.1 hm]
  exact ⟨hk, hv⟩

/-! ### Delimiters -/

namespace Delimiter

variable {before rest t value : List Char} {k : Construct} {verbatim : Bool} {skip : Nat}

theorem trimMarker_append (t : List Char) : (trimMarker t).1 ++ (trimMarker t).2 = t := by
  cases t with
  | nil => rfl
  | cons c t =>
    simp only [trimMarker]
    split <;> rfl

theorem at?_append (h : at? t = some (k, value, rest)) : value ++ rest = t ∧ value ≠ [] := by
  unfold at? at h
  split at h
  · rename_i c t
    split at h
    · cases h
    · simp only [Option.some.injEq, Prod.mk.injEq] at h
      obtain ⟨_, rfl, rfl⟩ := h
      exact ⟨by simp only [List.cons_append, trimMarker_append], List.cons_ne_nil _ _⟩
  · cases h

theorem find_none (h : find verbatim skip t = (before, none)) : before = t := by
  induction t generalizing skip before with
  | nil => cases skip <;> simp_all [find]
  | cons c t ih =>
    have key : ∀ {n : Nat}, (c :: (find verbatim n t).1, (find verbatim n t).2) = (before, none) →
        before = c :: t := by
      intro n hn
      simp only [Prod.mk.injEq] at hn
      have htext : (find verbatim n t).1 = t := ih (Prod.ext rfl hn.2)
      rw [← hn.1, htext]
    cases skip with
    | succ n => exact key h
    | zero =>
      unfold find at h
      split at h
      · exact key h
      · split at h
        · exact key h
        · cases h

theorem find_append (h : find verbatim skip t = (before, some (k, value, rest))) :
    before ++ (value ++ rest) = t ∧ value ≠ [] := by
  induction t generalizing skip before with
  | nil => cases skip <;> simp [find] at h
  | cons c t ih =>
    have key : ∀ {n : Nat}, (c :: (find verbatim n t).1, (find verbatim n t).2) =
        (before, some (k, value, rest)) → before ++ (value ++ rest) = c :: t ∧ value ≠ [] := by
      intro n hn
      simp only [Prod.mk.injEq] at hn
      obtain ⟨htext, hne⟩ := ih (Prod.ext rfl hn.2)
      exact ⟨by rw [← hn.1, List.cons_append, htext], hne⟩
    cases skip with
    | succ n => exact key h
    | zero =>
      unfold find at h
      split at h
      · exact key h
      · rename_i hat
        split at h
        · exact key h
        · simp only [Prod.mk.injEq, Option.some.injEq] at h
          obtain ⟨rfl, rfl, rfl, rfl⟩ := h
          exact at?_append hat

theorem commentEndAt?_append (h : commentEndAt? t = some (value, rest)) :
    value ++ rest = t ∧ value ≠ [] := by
  unfold commentEndAt? at h
  split at h
  · cases h
    exact ⟨rfl, List.cons_ne_nil _ _⟩
  · split at h
    · cases h
      exact ⟨rfl, List.cons_ne_nil _ _⟩
    · cases h
  · cases h

theorem commentBody?_append {body stop : List Char} (h : commentBody? t = some (body, stop, rest)) :
    body ++ (stop ++ rest) = t ∧ stop ≠ [] := by
  induction t generalizing body with
  | nil => cases h
  | cons c t ih =>
    unfold commentBody? at h
    split at h
    · rename_i hend
      cases h
      exact commentEndAt?_append hend
    · split at h
      · cases h
      · rename_i hbody
        cases h
        obtain ⟨htext, hne⟩ := ih hbody
        exact ⟨by rw [List.cons_append, htext], hne⟩

end Delimiter

/-! ### Runs of layout -/

theorem Lexeme.layoutPieces_flatten (t : List Char) :
    ((Lexeme.layoutPieces t).map (·.2)).flatten = t := by
  fun_induction Lexeme.layoutPieces t with
  | case1 => rfl
  | case2 c t more ih =>
    simp only [List.map_cons, List.flatten_cons, ih, List.cons_append, List.take_append_drop]

theorem Lexeme.layoutPieces_ne_nil (t : List Char) :
    ∀ p ∈ Lexeme.layoutPieces t, p.2 ≠ [] := by
  fun_induction Lexeme.layoutPieces t with
  | case1 =>
    intro p hp
    cases hp
  | case2 c t more ih =>
    intro p hp
    rcases List.mem_cons.1 hp with rfl | hp
    · exact List.cons_ne_nil _ _
    · exact ih p hp

theorem Lexeme.followed_layoutPieces
    (hat : ∀ (k : TokenKind) (c : Char) (t : List Char), R (k, c :: t.take (Lexeme.layoutAt c t).2)
      (t.drop (Lexeme.layoutAt c t).2 ++ rest))
    (kind : Lexeme.LayoutClass → TokenKind) (t : List Char) :
    Followed R ((Lexeme.layoutPieces t).map fun p => (kind p.1, p.2)) rest := by
  fun_induction Lexeme.layoutPieces t with
  | case1 => exact trivial
  | case2 c t more ih =>
    refine ⟨?_, ih⟩
    have hspell : spell ((Lexeme.layoutPieces (t.drop more)).map fun p => (kind p.1, p.2)) =
        t.drop more := by
      rw [spell, List.map_map]
      exact Lexeme.layoutPieces_flatten _
    rw [hspell]
    exact hat _ c t

/-- The lexemes of template text. -/
def textLexemes (t : List Char) : List Lexeme :=
  (Lexeme.layoutPieces t).map fun (cls, v) => (cls.codeKind, v)

/-- The lexemes of a comment body. -/
def commentLexemes (t : List Char) : List Lexeme :=
  (Lexeme.layoutPieces t).map fun (cls, v) => (cls.commentKind, v)

@[simp] theorem spell_textLexemes (t : List Char) : spell (textLexemes t) = t := by
  rw [spell, textLexemes, List.map_map]
  exact Lexeme.layoutPieces_flatten t

@[simp] theorem spell_commentLexemes (t : List Char) : spell (commentLexemes t) = t := by
  rw [spell, commentLexemes, List.map_map]
  exact Lexeme.layoutPieces_flatten t

/-! ### What the lexer emits -/

namespace Lexer

variable {start : List Char} {P : Lexeme → Prop}

/-- The lexemes emitted so far. -/
def emitted (s : Lexer) : List Lexeme := s.tokens.toList.map Token.lexeme

@[simp] theorem emitted_init : ({} : Lexer).emitted = [] := rfl

section

variable (s : Lexer)

@[simp] theorem emitted_mk (position : Position) (frames : List Frame) (verbatim : Bool)
    (directives : List ViolationId) :
    (⟨s.tokens, position, frames, verbatim, directives⟩ : Lexer).emitted = s.emitted := rfl

theorem toList_emit (kind : TokenKind) (value : List Char) : (s.emit kind value).tokens.toList =
      s.tokens.toList ++ [{ kind, value, position := s.position }] := by
  simp [emit]

theorem toList_pair (first second : Nat) : (s.pair first second).tokens.toList =
      (s.tokens.toList.modify first fun t => { t with related := some second }).modify second
        fun t => { t with related := some first } := by
  simp [pair]

@[simp] theorem emitted_emit (kind : TokenKind) (value : List Char) :
    (s.emit kind value).emitted = s.emitted ++ [(kind, value)] := by
  simp [emitted, emit, Token.lexeme]

@[simp] theorem emitted_emitAll (pieces : List Lexeme) :
    (s.emitAll pieces).emitted = s.emitted ++ pieces := by
  induction pieces generalizing s with
  | nil => simp [emitAll]
  | cons p pieces ih =>
    have hstep : s.emitAll (p :: pieces) = (s.emit p.1 p.2).emitAll pieces := rfl
    rw [hstep, ih, emitted_emit, List.append_assoc, List.singleton_append]

@[simp] theorem emit_frames (kind : TokenKind) (value : List Char) :
    (s.emit kind value).frames = s.frames := rfl

@[simp] theorem emit_verbatim (kind : TokenKind) (value : List Char) :
    (s.emit kind value).verbatim = s.verbatim := rfl

@[simp] theorem emitAll_frames (pieces : List Lexeme) : (s.emitAll pieces).frames = s.frames := by
  induction pieces generalizing s with
  | nil => rfl
  | cons p pieces ih => exact ih (s.emit p.1 p.2)

@[simp] theorem emitAll_verbatim (pieces : List Lexeme) :
    (s.emitAll pieces).verbatim = s.verbatim := by
  induction pieces generalizing s with
  | nil => rfl
  | cons p pieces ih => exact ih (s.emit p.1 p.2)

@[simp] theorem emitted_pair (first second : Nat) : (s.pair first second).emitted = s.emitted := by
  apply List.ext_getElem?
  intro i
  simp only [emitted, pair, List.getElem?_map, Array.getElem?_toList, Array.getElem?_modify]
  split <;> split <;> cases s.tokens[i]? <;> rfl

@[simp] theorem emitted_take (frame : Frame) (lexed : Lexed) (c : Char) (t : List Char) :
    (s.take frame lexed c t).emitted = s.emitted ++ [(lexed.kind, c :: t.take lexed.more)] := by
  unfold take
  cases lexed.partner <;> simp

end

variable {s s' : Lexer} {table : OperatorTable} {c : Char} {t rest : List Char}
  {verbatim verbatim' : Bool} {new : List Lexeme} {frames : List Frame}

/-- What template text adds: the lexemes, the constructs that are open after it, whether a verbatim
    body goes on, and the rest. -/
inductive Data (verbatim : Bool) (t : List Char) :
    List Lexeme → List Frame → Bool → List Char → Prop
  | text {before : List Char} (hfind : Delimiter.find verbatim 0 t = (before, none)) :
    Data verbatim t (textLexemes before) [] verbatim []
  | variable {before value rest : List Char}
      (hfind : Delimiter.find verbatim 0 t = (before, some (.variable, value, rest))) :
    Data verbatim t (textLexemes before ++ [(.variableStart, value)]) [.variable []] false rest
  | block {before value rest : List Char}
      (hfind : Delimiter.find verbatim 0 t = (before, some (.block, value, rest))) :
    Data verbatim t (textLexemes before ++ [(.blockStart, value)]) [.block none []] false rest
  | comment {before value after body stop rest : List Char}
      (hfind : Delimiter.find verbatim 0 t = (before, some (.comment, value, after)))
      (hbody : Delimiter.commentBody? after = some (body, stop, rest)) :
    Data verbatim t
      (textLexemes before ++ (.commentStart, value) :: commentLexemes body ++ [(.commentEnd, stop)])
      [] false rest

theorem comment_of_ok (h : s.comment start t = .ok (s', rest)) :
    ∃ body stop, Delimiter.commentBody? t = some (body, stop, rest) ∧
      s'.emitted =
        s.emitted ++ ((.commentStart, start) :: commentLexemes body ++ [(.commentEnd, stop)]) ∧
      s'.frames = s.frames ∧ s'.verbatim = s.verbatim := by
  unfold comment at h
  simp only at h
  split at h
  · cases h
  · rename_i body stop after hbody
    cases h
    exact ⟨body, stop, hbody, by simp [commentLexemes], by simp, by simp⟩

theorem comment_ok {body stop : List Char}
    (h : Delimiter.commentBody? t = some (body, stop, rest)) :
    ∃ s', s.comment start t = .ok (s', rest) ∧
      s'.emitted =
        s.emitted ++ ((.commentStart, start) :: commentLexemes body ++ [(.commentEnd, stop)]) ∧
      s'.frames = s.frames ∧ s'.verbatim = s.verbatim := by
  unfold comment
  simp only [h]
  exact ⟨_, rfl, by simp [commentLexemes], by simp, by simp⟩

theorem data_of_ok (hframes : s.frames = []) (h : s.data t = .ok (s', rest)) :
    ∃ new, Data s.verbatim t new s'.frames s'.verbatim rest ∧ s'.emitted = s.emitted ++ new := by
  unfold data at h
  rcases hfind : Delimiter.find s.verbatim 0 t with ⟨before, found⟩
  simp only [hfind] at h
  split at h
  · cases h
    rw [emitAll_frames, emitAll_verbatim, hframes]
    exact ⟨_, .text hfind, by simp [textLexemes]⟩
  · cases h
    exact ⟨_, .variable hfind, by simp [textLexemes]⟩
  · cases h
    exact ⟨_, .block hfind, by simp [textLexemes]⟩
  · obtain ⟨body, stop, hbody, hnew, hframes', hverbatim'⟩ := comment_of_ok h
    rw [hframes', hverbatim', emitAll_frames, hframes]
    exact ⟨_, .comment hfind hbody, by simp [hnew, textLexemes]⟩

theorem Data.ok (hframes : s.frames = [])
    (h : Data s.verbatim t new frames verbatim' rest) :
    ∃ s', s.data t = .ok (s', rest) ∧ s'.emitted = s.emitted ++ new ∧ s'.frames = frames ∧
      s'.verbatim = verbatim' := by
  cases h with
  | text hfind =>
    refine ⟨_, by simp only [data, hfind]; rfl, ?_, ?_, ?_⟩
    · simp [textLexemes]
    · simp [hframes]
    · simp
  | «variable» hfind =>
    exact ⟨_, by simp only [data, hfind]; rfl, by simp [textLexemes], rfl, rfl⟩
  | block hfind =>
    exact ⟨_, by simp only [data, hfind]; rfl, by simp [textLexemes], rfl, rfl⟩
  | comment hfind hbody =>
    simp only [data, hfind]
    obtain ⟨s', hs', hnew, hframes', hverbatim'⟩ := comment_ok hbody
    refine ⟨s', hs', ?_, ?_, hverbatim'⟩
    · rw [hnew]
      simp [textLexemes]
    · rw [hframes']
      simp [hframes]

/-- What holds of the pieces of text and of comments and of the delimiters around them holds of all
    lexemes that template text adds. -/
theorem Data.forall (h : Data verbatim t new frames verbatim' rest)
    (hpiece : ∀ {u : List Char}, ∀ p ∈ Lexeme.layoutPieces u,
      P (p.1.codeKind, p.2) ∧ P (p.1.commentKind, p.2))
    (hstart : ∀ {before value after : List Char} {k : Construct},
      Delimiter.find verbatim 0 t = (before, some (k, value, after)) →
        ∀ kind ∈ [TokenKind.variableStart, .blockStart, .commentStart], P (kind, value))
    (hstop : ∀ {after body stop rest : List Char},
      Delimiter.commentBody? after = some (body, stop, rest) → P (.commentEnd, stop)) :
    ∀ l ∈ new, P l := by
  have htext : ∀ before, ∀ l ∈ textLexemes before, P l := by
    intro before l hl
    obtain ⟨p, hp, rfl⟩ := List.mem_map.1 hl
    exact (hpiece p hp).1
  intro l hl
  cases h with
  | text => exact htext _ l hl
  | «variable» hfind | block hfind =>
    rcases List.mem_append.1 hl with hl | hl
    · exact htext _ l hl
    · rw [List.mem_singleton.1 hl]
      exact hstart hfind _ (by simp)
  | comment hfind hbody =>
    simp only [List.mem_append, List.mem_cons, List.not_mem_nil, or_false] at hl
    rcases hl with (hl | rfl | hl) | rfl
    · exact htext _ l hl
    · exact hstart hfind _ (by simp)
    · obtain ⟨p, hp, rfl⟩ := List.mem_map.1 hl
      exact (hpiece p hp).2
    · exact hstop hbody

theorem Data.spell (h : Data verbatim t new frames verbatim' rest) :
    spell new ++ rest = t ∧ Solid new := by
  constructor
  · cases h with
    | text hfind => rw [Delimiter.find_none hfind, spell_textLexemes, List.append_nil]
    | «variable» hfind | block hfind => simp [← (Delimiter.find_append hfind).1]
    | comment hfind hbody =>
      simp [← (Delimiter.find_append hfind).1, ← (Delimiter.commentBody?_append hbody).1]
  · refine h.forall ?_ ?_ ?_
    · intro u p hp
      have hne := Lexeme.layoutPieces_ne_nil u p hp
      cases p.1 <;> exact ⟨⟨nofun, hne⟩, nofun, hne⟩
    · intro before value after k hfind kind hkind
      have hkinds : ∀ k ∈ [TokenKind.variableStart, .blockStart, .commentStart], k ≠ .eof := by decide
      exact ⟨hkinds kind hkind, (Delimiter.find_append hfind).2⟩
    · exact fun hbody => ⟨nofun, (Delimiter.commentBody?_append hbody).2⟩

theorem step_cases (h : s.step table c t = .ok (s', rest)) :
    (s.frames = [] ∧ s.data (c :: t) = .ok (s', rest)) ∨
      ∃ frame outer lexed, s.frames = frame :: outer ∧ Inside s table frame outer c t lexed ∧
        s' = s.take frame lexed c t ∧ rest = t.drop lexed.more := by
  unfold step at h
  split at h
  · rename_i hframes
    exact .inl ⟨hframes, h⟩
  · rename_i frame outer hframes
    split at h
    · cases h
    · rename_i lexed hlexed
      cases h
      exact .inr ⟨frame, outer, lexed, hframes, inside_eq_ok_iff.1 hlexed, rfl, rfl⟩

theorem step_of_data (hframes : s.frames = []) : s.step table c t = s.data (c :: t) := by
  rw [step, hframes]

theorem step_of_inside (hframes : s.frames = frame :: outer)
    (h : Inside s table frame outer c t lexed) :
    s.step table c t = .ok (s.take frame lexed c t, t.drop lexed.more) := by
  rw [step, hframes]
  simp only [inside_eq_ok_iff.2 h]

theorem inside_of_step (hframes : s.frames = frame :: outer)
    (h : s.step table c t = .ok (s', rest)) :
    ∃ lexed, Inside s table frame outer c t lexed ∧ s' = s.take frame lexed c t ∧
      rest = t.drop lexed.more := by
  rcases step_cases h with ⟨hnil, -⟩ | ⟨frame', outer', lexed, hcons, hlexed, hs, hrest⟩
  · rw [hnil] at hframes
    cases hframes
  · rw [hframes] at hcons
    cases hcons
    exact ⟨lexed, hlexed, hs, hrest⟩

/-- What holds of the lexemes of template text, and of a lexeme of code alone, holds of what a step
    adds.  It may speak of the text in front of the lexemes' and of the one behind it. -/
theorem step_adds {P : List Char → List Lexeme → List Char → Prop}
    (hdata : ∀ {verbatim verbatim' : Bool} {t rest : List Char} {new : List Lexeme}
      {frames : List Frame}, Data verbatim t new frames verbatim' rest → P t new rest)
    (hinside : ∀ {frame : Frame} {outer : List Frame} {lexed : Lexed},
      Inside s table frame outer c t lexed →
        P (c :: t) [(lexed.kind, c :: t.take lexed.more)] (t.drop lexed.more))
    (h : s.step table c t = .ok (s', rest)) :
    ∃ new, s'.emitted = s.emitted ++ new ∧ P (c :: t) new rest := by
  obtain ⟨hframes, h⟩ | ⟨frame, outer, lexed, -, hlexed, rfl, rfl⟩ := step_cases h
  · obtain ⟨new, hnew, hemitted⟩ := data_of_ok hframes h
    exact ⟨new, hemitted, hdata hnew⟩
  · exact ⟨_, emitted_take .., hinside hlexed⟩

/-- A step adds lexemes that spell the text it takes. -/
theorem step_emits (h : s.step table c t = .ok (s', rest)) :
    ∃ new, s'.emitted = s.emitted ++ new ∧ spell new ++ rest = c :: t ∧ Solid new := by
  refine step_adds (P := fun t new rest => spell new ++ rest = t ∧ Solid new) Data.spell ?_ h
  intro frame outer lexed hlexed
  have hkinds : ∀ k ∈ expressionKinds ++
      [.quoteEnd, .interpolationStart, .variableEnd, .blockEnd, .interpolationEnd], k ≠ .eof := by
    decide
  exact ⟨by simp, .singleton (hkinds _ hlexed.kind_mem) (List.cons_ne_nil _ _)⟩

theorem run_cons (h : s.step table c t = .ok (s', rest)) :
    run table s (c :: t) = run table s' rest := by
  rw [run]
  split
  · rename_i hstep
    rw [h] at hstep
    cases hstep
  · rename_i hstep
    rw [h] at hstep
    cases hstep
    rfl

theorem run_error {e : LexFailure} (h : s.step table c t = .error e) :
    run table s (c :: t) = .error e := by
  rw [run]
  split
  · rename_i hstep
    rw [h] at hstep
    cases hstep
    rfl
  · rename_i hstep
    rw [h] at hstep
    cases hstep

theorem run_keeps {P : Lexer → List Char → Prop}
    (hstep : ∀ {s s' : Lexer} {c : Char} {t rest : List Char}, P s (c :: t) →
      s.step table c t = .ok (s', rest) → P s' rest)
    (h : P s t) (hrun : run table s t = .ok s') : P s' [] := by
  fun_induction run table s t with
  | case1 s =>
    cases hrun
    exact h
  | case2 s c t e hs => cases hrun
  | case3 s c t s₁ rest hs ih => exact ih (hstep h hs) hrun

theorem run_emits (h : run table s t = .ok s') :
    ∃ new, s'.emitted = s.emitted ++ new ∧ spell new = t ∧ Solid new := by
  fun_induction run table s t with
  | case1 s =>
    cases h
    exact ⟨[], by simp, rfl, nofun⟩
  | case2 s c t e hstep => cases h
  | case3 s c t s₁ rest hstep ih =>
    obtain ⟨new₁, hnew₁, hspell₁, hsolid₁⟩ := step_emits hstep
    obtain ⟨new₂, hnew₂, hspell₂, hsolid₂⟩ := ih h
    refine ⟨new₁ ++ new₂, ?_, ?_, hsolid₁.append hsolid₂⟩
    · rw [hnew₂, hnew₁, List.append_assoc]
    · rw [spell_append, hspell₂, hspell₁]

theorem run_forall
    (hstep : ∀ {s s' : Lexer} {c : Char} {t rest : List Char}, s.step table c t = .ok (s', rest) →
      ∃ new, s'.emitted = s.emitted ++ new ∧ ∀ l ∈ new, P l)
    (h : run table s t = .ok s') : ∃ new, s'.emitted = s.emitted ++ new ∧ ∀ l ∈ new, P l := by
  fun_induction run table s t with
  | case1 s =>
    cases h
    exact ⟨[], by simp, nofun⟩
  | case2 s c t e hs => cases h
  | case3 s c t s₁ rest hs ih =>
    obtain ⟨new₁, hnew₁, hall₁⟩ := hstep hs
    obtain ⟨new₂, hnew₂, hall₂⟩ := ih h
    refine ⟨new₁ ++ new₂, ?_, ?_⟩
    · rw [hnew₂, hnew₁, List.append_assoc]
    · intro l hl
      rcases List.mem_append.1 hl with hl | hl
      · exact hall₁ l hl
      · exact hall₂ l hl

theorem run_followed
    (hstep : ∀ {s s' : Lexer} {c : Char} {t rest : List Char}, s.step table c t = .ok (s', rest) →
      ∃ new, s'.emitted = s.emitted ++ new ∧ Followed R new rest)
    (h : run table s t = .ok s') (hs : Followed R s.emitted t) : Followed R s'.emitted [] := by
  refine run_keeps (P := fun s t => Followed R s.emitted t) ?_ hs h
  intro s s' c t rest hs hs₁
  obtain ⟨new, hnew, hfollowed⟩ := hstep hs₁
  obtain ⟨new', hnew', hspell, -⟩ := step_emits hs₁
  obtain rfl : new = new' := List.append_cancel_left (hnew.symm.trans hnew')
  rw [hnew, followed_append, hspell]
  exact ⟨hs, hfollowed⟩

/-- A lexeme that a run adds is added by one of its steps; `I` is what the steps keep. -/
theorem run_moment {I : Lexer → Prop}
    (hstep : ∀ {s s' : Lexer} {c : Char} {t rest : List Char}, I s →
      s.step table c t = .ok (s', rest) → I s')
    (hs : I s) (hrun : run table s t = .ok s')
    (hemitted : s'.emitted = s.emitted ++ (ls ++ l :: ms)) :
    ∃ s₁ c u s₂ rest before after, I s₁ ∧ s₁.step table c u = .ok (s₂, rest) ∧
      s₁.emitted ++ before = s.emitted ++ ls ∧ s₂.emitted = s₁.emitted ++ (before ++ l :: after) ∧
      run table s₂ rest = .ok s' := by
  fun_induction run table s t generalizing ls with
  | case1 s =>
    cases hrun
    simp at hemitted
  | case2 s c t e hs₁ => cases hrun
  | case3 s c t s₁ rest hs₁ ih =>
    obtain ⟨new, hnew, -, -⟩ := step_emits hs₁
    obtain ⟨more, hmore, -, -⟩ := run_emits hrun
    rw [hmore, hnew, List.append_assoc, List.append_cancel_left_eq] at hemitted
    -- Either the lexeme is among those of the first step, or it comes later.
    have hlater : ∀ ls', more = ls' ++ l :: ms → new ++ ls' = ls → ∃ s₁ c u s₂ rest before after,
        I s₁ ∧ s₁.step table c u = .ok (s₂, rest) ∧ s₁.emitted ++ before = s.emitted ++ ls ∧
        s₂.emitted = s₁.emitted ++ (before ++ l :: after) ∧ run table s₂ rest = .ok s' := by
      intro ls' hls' hls
      obtain ⟨s₂, c', u, s₃, rest', before, after, hI, hs₂, hbefore, hafter, hrest⟩ :=
        ih (hstep hs hs₁) hrun (hmore.trans (congrArg (s₁.emitted ++ ·) hls'))
      refine ⟨s₂, c', u, s₃, rest', before, after, hI, hs₂, ?_, hafter, hrest⟩
      rw [hbefore, hnew, ← hls, List.append_assoc]
    rcases List.append_eq_append_iff.1 hemitted with ⟨w, hls, hw⟩ | ⟨w, hw, hl⟩
    · exact hlater w hw hls.symm
    · cases w with
      | nil => exact hlater [] hl.symm (by simpa using hw)
      | cons l' after =>
        obtain ⟨rfl, -⟩ := List.cons.inj hl
        exact ⟨s, c, t, s₁, rest, ls, after, hs, hs₁, rfl, by rw [hnew, hw], hrun⟩

theorem scan_emits (h : scan table source = .ok s) :
    ∃ ls, s.emitted = ls ++ [(.eof, [])] ∧ spell ls = source ∧ Solid ls := by
  unfold scan at h
  split at h
  · cases h
  · rename_i s₁ hrun
    obtain ⟨new, hnew, hspell, hsolid⟩ := run_emits hrun
    unfold finish at h
    simp only at h
    split at h
    · cases h
      exact ⟨new, by simp [hnew], hspell, hsolid⟩
    · cases h

end Lexer

/-- A source is cut into tokens exactly if it is read to its end and nothing is open there. -/
theorem tokenize_eq_ok_iff :
    tokenize table source = .ok t ↔ ∃ s, Lexer.run table {} source = .ok s ∧ s.frames = [] ∧
      t = ⟨⟨(s.emit .eof []).tokens, false⟩, s.directives⟩ := by
  unfold tokenize Lexer.scan Lexer.finish
  cases Lexer.run table {} source with
  | error e => simp
  | ok s =>
    cases hframes : s.frames with
    | nil =>
      simp only [Lexer.emit_frames, hframes, eq_comm, Except.ok.injEq, exists_eq_left', true_and]
      rfl
    | cons frame outer => simp [hframes]

/-! ### Streams -/

theorem exists_ok_of_isOk {ε α : Type} {x : Except ε α} (h : x.isOk = true) : ∃ a, x = .ok a := by
  cases x with
  | error e => cases h
  | ok a => exact ⟨a, rfl⟩

theorem exists_ok_of_map {ε α β : Type} {x : Except ε α} {f : α → β} {b : β}
    (h : x.toOption.map f = some b) : ∃ a, x = .ok a ∧ f a = b := by
  cases x with
  | error e => cases h
  | ok a => exact ⟨a, rfl, Option.some.inj h⟩

/-- Kinds and values of the tokens of a stream. -/
def TokenStream.lexemes (s : TokenStream) : List Lexeme :=
  s.tokens.toList.map Token.lexeme

theorem TokenStream.source_eq (s : TokenStream) : s.source = spell s.lexemes := by
  simp only [source, spell, lexemes, List.map_map]
  rfl

theorem tokenize_lexemes (h : tokenize table source = .ok t) :
    ∃ ls, t.stream.lexemes = ls ++ [(.eof, [])] ∧ spell ls = source ∧ Solid ls := by
  unfold tokenize at h
  split at h
  · rename_i s hscan
    cases h
    exact Lexer.scan_emits hscan
  · cases h

/-- A token of a template other than the last one is added by a step of the lexer. -/
theorem tokenize_moment {I : Lexer → Prop} (hinit : I {})
    (hstep : ∀ {s s' : Lexer} {c : Char} {t rest : List Char}, I s →
      s.step table c t = .ok (s', rest) → I s')
    (h : tokenize table source = .ok t) (hsplit : t.stream.lexemes = ls ++ l :: ms)
    (hl : l.1 ≠ .eof) :
    ∃ s c u s' rest before after final, I s ∧ s.step table c u = .ok (s', rest) ∧
      ls = s.emitted ++ before ∧ s'.emitted = s.emitted ++ (before ++ l :: after) ∧
      Lexer.run table s' rest = .ok final ∧ ls ++ l :: ms = final.emitted ++ [(.eof, [])] := by
  obtain ⟨final, hrun, -, rfl⟩ := tokenize_eq_ok_iff.1 h
  have hfinal : ls ++ l :: ms = final.emitted ++ [(.eof, [])] := by
    rw [← hsplit, ← Lexer.emitted_emit]
    rfl
  obtain ⟨ms', hms⟩ : ∃ ms', final.emitted = ls ++ l :: ms' := by
    rcases List.eq_nil_or_concat ms with rfl | ⟨ms', last, rfl⟩
    · obtain ⟨-, heof⟩ := List.append_inj' hfinal rfl
      exact absurd (congrArg Prod.fst (List.singleton_inj.1 heof)) hl
    · rw [List.concat_eq_append, ← List.cons_append, ← List.append_assoc] at hfinal
      exact ⟨ms', (List.append_inj' hfinal rfl).1.symm⟩
  obtain ⟨s, c, u, s', rest, before, after, hI, hs, hbefore, hafter, hrest⟩ :=
    Lexer.run_moment hstep hinit hrun (hms.trans (List.nil_append _).symm)
  exact ⟨s, c, u, s', rest, before, after, final, hI, hs, hbefore.symm, hafter, hrest, hfinal⟩

theorem TokenStream.isComplete_of_lexemes {s : TokenStream} (h : s.lexemes = ls ++ [(.eof, [])])
    (hsolid : Solid ls) : s.isComplete = true := by
  have hback : s.tokens.back?.map Token.lexeme = some (.eof, []) := by
    rw [← Array.getLast?_toList, ← List.getLast?_map]
    change s.lexemes.getLast? = _
    rw [h, List.getLast?_concat]
  have hcount : s.tokens.toList.countP (·.kind == .eof) = 1 := by
    have hmap : s.tokens.toList.countP (·.kind == .eof) = s.lexemes.countP (·.1 == .eof) := by
      rw [lexemes, List.countP_map]
      rfl
    have hzero : ls.countP (·.1 == .eof) = 0 := by
      rw [List.countP_eq_zero]
      intro l hl heof
      exact (hsolid l hl).1 (eq_of_beq heof)
    rw [hmap, h, List.countP_append, hzero]
    rfl
  obtain ⟨last, hlast, hlexeme⟩ := Option.map_eq_some_iff.1 hback
  have hkind : last.kind = .eof := congrArg Prod.fst hlexeme
  simp [isComplete, hlast, hkind, hcount]

/-- **Cutting loses nothing.** The values of the tokens concatenate to the source, the stream is
    complete, and the end of file is the one token with an empty value. -/
theorem tokenize_lossless {table : OperatorTable} {source : List Char} {t : Template}
    (h : tokenize table source = .ok t) :
    t.stream.source = source ∧ t.stream.isComplete = true ∧
      ∀ token ∈ t.stream.tokens, token.value = [] ↔ token.kind = .eof := by
  obtain ⟨ls, hls, hspell, hsolid⟩ := tokenize_lexemes h
  refine ⟨?_, TokenStream.isComplete_of_lexemes hls hsolid, ?_⟩
  · rw [TokenStream.source_eq, hls, spell_append, hspell]
    simp
  · intro token htoken
    have hmem : token.lexeme ∈ ls ++ [(TokenKind.eof, ([] : List Char))] := by
      rw [← hls]
      exact List.mem_map_of_mem (Array.mem_toList_iff.2 htoken)
    rcases List.mem_append.1 hmem with hmem | hmem
    · obtain ⟨hkind, hvalue⟩ := hsolid _ hmem
      exact iff_of_false hvalue hkind
    · have hlexeme : token.lexeme = (.eof, []) := List.mem_singleton.1 hmem
      exact iff_of_true (congrArg Prod.snd hlexeme) (congrArg Prod.fst hlexeme)

/-- Text, code with a string in it, and a comment. -/
theorem tokenize_lossless_mixed :
    ∃ t, tokenize OperatorTable.default
        "<a>\x7b\x7b b.c ~ \"d#\x7b e \x7d\" \x7d\x7d\x7b# f\n#\x7d".toList = .ok t ∧
      t.stream.source =
        "<a>\x7b\x7b b.c ~ \"d#\x7b e \x7d\" \x7d\x7d\x7b# f\n#\x7d".toList := by
  obtain ⟨t, ht⟩ := exists_ok_of_isOk (x := tokenize OperatorTable.default
    "<a>\x7b\x7b b.c ~ \"d#\x7b e \x7d\" \x7d\x7d\x7b# f\n#\x7d".toList) (by decide +kernel)
  exact ⟨t, ht, (tokenize_lossless ht).1⟩

end TwigStyle
