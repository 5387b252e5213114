import TwigStyle.Proofs.Failures
import TwigStyle.Proofs.LongestMatch
import TwigStyle.Proofs.Printable

/-!
# Nothing goes wrong inside

The errors of the lexer are about templates.  Whatever else could go wrong has a harmless default in
it: `take` and `drop` stop at the end of the text, lengths are subtracted down to zero, tokens are
appended without asking the stream, and two brackets are joined only if they are there.  Here it is
shown that no default is ever used, for any table of operators and any source.

`Lexer.Safe` says what holds wherever the lexer stands.  Its tokens are cut from the source at
offsets in bytes that are boundaries of characters, the stream would have accepted each of them in
turn, and every bracket on its stack stands where it was opened.
-/

namespace TwigStyle

theorem TokenStream.foldlM_add {s : TokenStream} {ts : List Token} (hopen : s.readOnly = false)
    (hback : ∀ t ∈ s.tokens.back?, t.kind ≠ .eof) (hts : ∀ t ∈ ts.dropLast, t.kind ≠ .eof) :
    ts.foldlM add s = .ok ⟨s.tokens ++ ts.toArray, false⟩ := by
  induction ts generalizing s with
  | nil =>
    cases s
    cases hopen
    simp
    rfl
  | cons t ts ih =>
    have hadd : s.add t = .ok ⟨s.tokens.push t, false⟩ := by
      cases hlast : s.tokens.back? with
      | none => simp [add, hopen, hlast]
      | some last => simp [add, hopen, hlast, hback last hlast]
    rw [List.foldlM_cons, hadd]
    change ts.foldlM add ⟨s.tokens.push t, false⟩ = _
    cases ts with
    | nil => simp; rfl
    | cons u us =>
      rw [List.dropLast_cons_cons, List.forall_mem_cons] at hts
      rw [ih rfl (by simpa using hts.1) hts.2]
      simp

namespace Lexer

variable {s s' : Lexer} {table : OperatorTable} {source : List Char} {c : Char}
  {t rest : List Char}

/-- The lexer comes to a state while it reads a source, with this text left. -/
inductive Visits (table : OperatorTable) (source : List Char) : Lexer → List Char → Prop
  | start : Visits table source {} source
  | step {s s' : Lexer} {c : Char} {t rest : List Char} (h : Visits table source s (c :: t))
      (hstep : s.step table c t = .ok (s', rest)) : Visits table source s' rest

/-- The brackets that are open in all constructs, innermost first. -/
def stack (s : Lexer) : List OpenBracket := s.frames.flatMap Frame.brackets

/-- The offset in bytes behind the first tokens. -/
def offset (s : Lexer) (n : Nat) : Nat := (String.ofList (spell (s.emitted.take n))).utf8ByteSize

/-- Every bracket that is open stands where its token is, inner ones behind outer ones. -/
structure Stacked (s : Lexer) : Prop where
  ordered : s.stack.Pairwise fun inner outer => outer.index < inner.index
  opened : ∀ b ∈ s.stack, s.emitted[b.index]? = some (b.shape.kind, [b.shape.opener])

/-- What holds wherever the lexer stands. -/
structure Safe (source : List Char) (s : Lexer) (rest : List Char) : Prop extends s.Stacked where
  text : source = spell s.emitted ++ rest
  boundary : ∀ n, String.Pos.Raw.IsValid (String.ofList source) ⟨s.offset n⟩
  accepted : s.tokens.toList.foldlM TokenStream.add {} = .ok ⟨s.tokens, false⟩

/-! ### The stack -/

theorem Stacked.kept (h : s.Stacked) {b : OpenBracket} (hb : b ∈ s.stack) (new : List Lexeme) :
    (s.emitted ++ new)[b.index]? = some (b.shape.kind, [b.shape.opener]) := by
  have hopened := h.opened b hb
  rw [List.getElem?_append_left (List.getElem?_eq_some_iff.1 hopened).1, hopened]

theorem Stacked.of_sublist (h : s.Stacked) (hstack : s'.stack.Sublist s.stack) {new : List Lexeme}
    (hnew : s'.emitted = s.emitted ++ new) : s'.Stacked := by
  refine ⟨h.ordered.sublist hstack, fun b hb => ?_⟩
  rw [hnew]
  exact h.kept (hstack.subset hb) new

theorem Stacked.step (h : s.Stacked) (hstep : s.step table c t = .ok (s', rest)) : s'.Stacked := by
  obtain ⟨hframes, hstep⟩ | ⟨frame, outer, lexed, hframes, hlexed, rfl, -⟩ := step_cases hstep
  · obtain ⟨new, hdata, hnew⟩ := data_of_ok hframes hstep
    have hnone : s'.stack = [] := List.flatMap_eq_nil_iff.2 hdata.brackets
    exact h.of_sublist (hnone ▸ List.nil_sublist _) hnew
  · have hstack := hlexed.stack
    rw [← hframes, ← take_frames s frame lexed c t] at hstack
    rcases hstack with hsub | ⟨shape, hcons, hlexeme⟩
    · exact h.of_sublist hsub (emitted_take ..)
    · have hindex : (s.openHere shape).index = s.emitted.length := by simp [openHere, emitted]
      constructor
      · refine (congrArg _ hcons).mpr (List.pairwise_cons.2 ⟨fun b hb => ?_, h.ordered⟩)
        rw [hindex]
        exact (List.getElem?_eq_some_iff.1 (h.opened b hb)).1
      · intro b hb
        rw [emitted_take]
        rcases List.mem_cons.1 ((congrArg (b ∈ ·) hcons).mp hb) with rfl | hb
        · rw [hindex, List.getElem?_concat_length, hlexeme]
          rfl
        · exact h.kept hb _

/-! ### Wherever the lexer stands -/

theorem Stacked.safe (h : s.Stacked) (htext : source = spell s.emitted ++ rest)
    (hkinds : ∀ l ∈ s.emitted.dropLast, l.1 ≠ .eof) : Safe source s rest := by
  refine ⟨h, htext, fun n => ?_, ?_⟩
  · refine String.Pos.Raw.isValid_iff_exists_append.2
      ⟨_, String.ofList (spell (s.emitted.drop n) ++ rest), ?_, rfl⟩
    rw [← String.ofList_append, ← List.append_assoc, ← spell_append, List.take_append_drop, ← htext]
  · rw [TokenStream.foldlM_add rfl (by simp)]
    · simp
    · intro t ht
      refine hkinds t.lexeme ?_
      rw [emitted, ← List.map_dropLast]
      exact List.mem_map_of_mem ht

theorem Visits.solid (h : Visits table source s rest) :
    s.Stacked ∧ source = spell s.emitted ++ rest ∧ Solid s.emitted := by
  induction h with
  | start => exact ⟨⟨.nil, nofun⟩, rfl, nofun⟩
  | step _ hstep ih =>
    obtain ⟨hstacked, htext, hsolid⟩ := ih
    obtain ⟨new, hnew, hspell, hnewSolid⟩ := step_emits hstep
    refine ⟨hstacked.step hstep, ?_, ?_⟩
    · rw [htext, hnew, spell_append, List.append_assoc, hspell]
    · rw [hnew]
      exact hsolid.append hnewSolid

/-- What holds of a state holds when more lexemes are appended, of which the last may be an end. -/
theorem Visits.safe_append (h : Visits table source s (t ++ rest)) (new : List Lexeme)
    (hframes : s'.frames = s.frames) (hnew : s'.emitted = s.emitted ++ new) (hspell : spell new = t)
    (hkinds : ∀ l ∈ new.dropLast, l.1 ≠ .eof) : Safe source s' rest := by
  obtain ⟨hstacked, htext, hsolid⟩ := h.solid
  refine (hstacked.of_sublist ?_ hnew).safe ?_ fun l hl => ?_
  · rw [stack, hframes]
    exact List.Sublist.refl _
  · rw [htext, hnew, spell_append, hspell, List.append_assoc]
  · rw [hnew] at hl
    cases new with
    | nil => exact (hsolid l (by simpa using (List.dropLast_sublist _).subset hl)).1
    | cons a new =>
      rw [List.dropLast_append_cons, List.mem_append] at hl
      rcases hl with hl | hl
      · exact (hsolid l hl).1
      · exact hkinds l hl

theorem Visits.safe (h : Visits table source s rest) : Safe source s rest :=
  h.safe_append (t := []) [] rfl (List.append_nil _).symm rfl nofun

/-- A closing bracket takes the innermost bracket of the whole stack. -/
theorem Inside.partner {frame : Frame} {outer : List Frame} {lexed : Lexed} {first : Nat}
    (h : Inside s table frame outer c t lexed) (hframes : s.frames = frame :: outer)
    (hpartner : lexed.partner = some first) :
    ∃ b, (s.stack.dropWhile (·.shape == .ternary)).head? = some b ∧ b.index = first ∧
      BracketShape.ofCloser? c = some b.shape := by
  cases h with
  | endQuote | interpolate | literal | close => cases hpartner
  | read _ _ hread =>
    cases hread with
    | layout | spread | arrow | operator | number | string | quote => cases hpartner
    | name =>
      unfold nameLexed at hpartner
      split at hpartner <;> cases hpartner
    | punctuation _ _ _ _ hpunct =>
      cases Marks.of_ok hpunct with
      | question | answer | colon | comma | other | opener => cases hpartner
      | @closer b bs hshape hbs =>
        cases hpartner
        refine ⟨b, ?_, rfl, hshape⟩
        unfold dropTernaries at hbs
        rw [Lexer.stack, hframes, List.flatMap_cons, List.dropWhile_append, hbs]
        rfl

theorem Visits.run (h : Visits table source s t) (hrun : Lexer.run table s t = .ok s') :
    Visits table source s' [] :=
  run_keeps (P := Visits table source) Visits.step h hrun

end Lexer

end TwigStyle
