import TwigStyle.Proofs.Delimiters
import TwigStyle.Proofs.Numbers
import TwigStyle.Proofs.Spelled

/-!
# Where tokens stand

The position of a token is that of its first character: its line is one more than the line breaks
before it, and its column one more than the characters since the last of them.

The lexer adds up positions token by token, which is right only if no token ends between a carriage
return and its line feed.  `Unsplit` says so of a row of lexemes, and `Inside.unsplit` goes through
everything that code can be read as: a lexeme either ends with something else, or it is a line break
in front of something else.
-/

namespace TwigStyle

variable {rest t v : List Char} {ls : List Lexeme}

/-! ### Lines and columns of a text -/

/-- The line breaks of a text.  A carriage return and its line feed are one. -/
def lineBreakCount : List Char → Nat
  | [] => 0
  | '\r' :: '\n' :: t => lineBreakCount t + 1
  | '\r' :: t => lineBreakCount t + 1
  | '\n' :: t => lineBreakCount t + 1
  | _ :: t => lineBreakCount t

/-- A carriage return or a line feed. -/
def endsLine (c : Char) : Bool := c == '\r' || c == '\n'

/-- The text after the last line break. -/
def lastLine (t : List Char) : List Char := (t.reverse.takeWhile (!endsLine ·)).reverse

theorem takeWhile_of_no_break (h : t.any endsLine = false) : t.takeWhile (!endsLine ·) = t := by
  induction t with
  | nil => rfl
  | cons c t ih =>
    obtain ⟨hc, ht⟩ := Bool.or_eq_false_iff.1 ((List.any_cons ..).symm.trans h)
    rw [List.takeWhile_cons_of_pos (by simp [hc]), ih ht]

theorem takeWhile_append_of_break (h : t.any endsLine = true) (u : List Char) :
    (t ++ u).takeWhile (!endsLine ·) = t.takeWhile (!endsLine ·) := by
  induction t with
  | nil => cases h
  | cons c t ih =>
    cases hc : endsLine c with
    | true => simp [hc]
    | false =>
      have ht : t.any endsLine = true := by simpa [hc] using h
      rw [List.cons_append, List.takeWhile_cons_of_pos (by simp [hc]), ih ht,
        List.takeWhile_cons_of_pos (by simp [hc])]

theorem lastLine_of_no_break (h : t.any endsLine = false) : lastLine t = t := by
  rw [lastLine, takeWhile_of_no_break (by rwa [List.any_reverse]), List.reverse_reverse]

theorem lastLine_cons (c : Char) (t : List Char) :
    lastLine (c :: t) =
      if t.any endsLine then lastLine t else if endsLine c then t else c :: t := by
  rw [lastLine, List.reverse_cons]
  cases ht : t.any endsLine with
  | true => rw [takeWhile_append_of_break (by rwa [List.any_reverse])]; rfl
  | false =>
    have hall : ∀ d ∈ t.reverse, (!endsLine d) = true := by
      intro d hd
      simpa using List.any_eq_false.1 ht d (List.mem_reverse.1 hd)
    rw [List.takeWhile_append_of_pos hall]
    cases hc : endsLine c <;> simp [hc]

theorem lineBreakCount_eq_zero_iff : lineBreakCount t = 0 ↔ t.any endsLine = false := by
  fun_induction lineBreakCount t with
  | case1 => simp
  | case2 | case3 | case4 => simp [endsLine]
  | case5 c t _ hcr hlf ih =>
    have hc : endsLine c = false := by
      simp only [endsLine, Bool.or_eq_false_iff, beq_eq_false_iff_ne]
      exact ⟨hcr, hlf⟩
    rw [ih, List.any_cons, hc, Bool.false_or]

namespace Position

variable {u v t : List Char}

theorem after_eq (p : Position) (t : List Char) :
    p.after t = ⟨p.line + lineBreakCount t,
      (if t.any endsLine then 1 else p.column) + (lastLine t).length⟩ := by
  -- Behind a line break the column starts from 1 again.
  have hbreak : ∀ (q : Position) {c : Char} (t : List Char), endsLine c = true → q.column = 1 →
      (if t.any endsLine then 1 else q.column) + (lastLine t).length =
        1 + (lastLine (c :: t)).length := by
    intro q c t hc hq
    rw [lastLine_cons, hc, hq]
    cases ht : t.any endsLine with
    | true => simp
    | false => simp [lastLine_of_no_break ht]
  fun_induction after p t with
  | case1 p => rfl
  | case2 p t ih =>
    rw [ih, hbreak (c := '\n') p.nextLine t rfl rfl]
    simp only [lineBreakCount, nextLine, lastLine_cons '\r', List.any_cons]
    simp [endsLine]
    omega
  | case3 p t hne ih =>
    rw [ih, hbreak (c := '\r') p.nextLine t rfl rfl, lineBreakCount]
    · simp [nextLine, endsLine]
      omega
    · exact hne
  | case4 p t ih =>
    rw [ih, hbreak (c := '\n') p.nextLine t rfl rfl]
    simp [lineBreakCount, nextLine, endsLine]
    omega
  | case5 p c t hcrlf hcr hlf ih =>
    have hc : endsLine c = false := by
      simp only [endsLine, Bool.or_eq_false_iff, beq_eq_false_iff_ne]
      exact ⟨hcr, hlf⟩
    rw [ih, lineBreakCount, lastLine_cons, List.any_cons, hc]
    · cases ht : t.any endsLine with
      | true => rfl
      | false =>
        rw [lastLine_of_no_break ht]
        simp
        omega
    · exact hcrlf
    · exact hcr
    · exact hlf

/-- The position behind a text that starts the file. -/
theorem start_after (t : List Char) :
    start.after t = ⟨1 + lineBreakCount t, 1 + (lastLine t).length⟩ := by
  rw [after_eq]
  simp [start]

theorem after_append (h : u.getLast? = some '\r' → v.head? ≠ some '\n') (p : Position) :
    p.after (u ++ v) = (p.after u).after v := by
  fun_induction after p u with
  | case1 p => rfl
  | case2 p t ih => exact ih fun hlast => h (by simp [List.getLast?_cons, hlast])
  | case3 p t hne ih =>
    have hlf : ∀ w, t ++ v ≠ '\n' :: w := by
      intro w hw
      cases t with
      | nil => exact h rfl (by rw [List.nil_append] at hw; rw [hw]; rfl)
      | cons d t => exact hne t (by rw [List.cons_append] at hw; rw [(List.cons.inj hw).1])
    rw [List.cons_append, after]
    · exact ih fun hlast => h (by simp [List.getLast?_cons, hlast])
    · exact hlf
  | case4 p t ih => exact ih fun hlast => h (by simp [List.getLast?_cons, hlast])
  | case5 p c t hcrlf hcr hlf ih =>
    rw [List.cons_append, after]
    · exact ih fun hlast => h (by simp [List.getLast?_cons, hlast])
    · exact fun _ hc => absurd hc hcr
    · exact hcr
    · exact hlf

end Position

/-! ### Where lexemes are cut -/

/-- A character that neither is layout nor continues a name. -/
def Lexeme.isMark (a : Char) : Bool := !Text.isLayout a && !continuesName a

namespace Lexer

section Cuts

variable {s s' : Lexer} {table : OperatorTable} {frame : Frame} {outer : List Frame} {c : Char}
  {t rest : List Char} {lexed : Lexed} {R : Lexeme → List Char → Prop}

/-! A relation between a lexeme and the text behind it holds wherever the lexer cuts if it holds
    behind a mark or a digit, in front of a mark, and behind layout, words, operators and names. -/

variable (hends : ∀ {k : TokenKind} {v rest : List Char},
    (∀ a ∈ v.getLast?, Lexeme.isMark a = true ∨ a.isDigit = true) → R (k, v) rest)
  (hstarts : ∀ {k : TokenKind} {v rest : List Char},
    (∀ a ∈ rest.head?, Lexeme.isMark a = true) → R (k, v) rest)
  (hpiece : ∀ {k : TokenKind} {c : Char} {t rest : List Char},
    (∀ a ∈ rest.head?, Lexeme.isMark a = true) →
      R (k, c :: t.take (Lexeme.layoutAt c t).2) (t.drop (Lexeme.layoutAt c t).2 ++ rest))
include hends hpiece

theorem Data.followed {verbatim verbatim' : Bool} {new : List Lexeme} {frames : List Frame}
    (h : Data verbatim t new frames verbatim' rest) : Followed R new rest := by
  have hmarks : ['\x7b', '%', '#', '-', '~', '\x7d'].all Lexeme.isMark = true := by decide
  have hpieces : ∀ (kind : Lexeme.LayoutClass → TokenKind) (t : List Char) {rest : List Char},
      (∀ a ∈ rest.head?, Lexeme.isMark a = true) →
        Followed R ((Lexeme.layoutPieces t).map fun p => (kind p.1, p.2)) rest :=
    fun kind t _ hrest => Lexeme.followed_layoutPieces (fun _ _ _ => hpiece hrest) kind t
  have hdelimiter : ∀ {before value rest : List Char} {k : Construct} (x : TokenKind),
      Delimiter.find verbatim 0 t = (before, some (k, value, rest)) →
        Followed R (textLexemes before ++ [(x, value)]) rest := by
    intro before value rest k x hfind
    have hat := (Delimiter.find_found hfind).1
    have hvalue : ∀ a ∈ value, Lexeme.isMark a = true := fun a ha =>
      List.all_eq_true.1 hmarks a (List.mem_append_left ['\x7d'] (Delimiter.mem_of_at? hat a ha))
    obtain ⟨d, marker, rfl, -, -⟩ := Delimiter.at?_eq_some_iff.1 hat
    refine followed_append.2 ⟨hpieces _ _ ?_, hends ?_, trivial⟩
    · rintro a ⟨⟩
      rfl
    · exact fun a ha => .inl (hvalue a (List.mem_of_getLast? ha))
  cases h with
  | text => exact hpieces _ _ nofun
  | «variable» hfind | block hfind => exact hdelimiter _ hfind
  | @comment before value after body stop rest hfind hbody =>
    obtain ⟨-, hstop⟩ := Delimiter.commentEndAt?_eq_some_iff.1 (Delimiter.commentBody?_found hbody)
    have hstop : stop.all Lexeme.isMark = true := by
      rcases hstop with rfl | ⟨m, hm, rfl⟩
      · decide
      · simp only [Delimiter.isTrimMarker, Bool.or_eq_true, beq_iff_eq] at hm
        rcases hm with rfl | rfl <;> decide
    rw [List.all_eq_true] at hstop
    obtain ⟨htext, hne⟩ := Delimiter.commentBody?_append hbody
    have hstart := hdelimiter .commentStart hfind
    rw [← htext] at hstart
    rw [← List.singleton_append, ← List.append_assoc, List.append_assoc]
    refine followed_append.2 ⟨by simpa using hstart, followed_append.2 ⟨hpieces _ _ ?_, hends ?_, trivial⟩⟩
    · obtain ⟨a, stop, rfl⟩ := List.exists_cons_of_ne_nil hne
      rintro b ⟨⟩
      exact hstop a List.mem_cons_self
    · exact fun a ha => .inl (hstop a (List.mem_of_getLast? ha))

variable (hoperator : ∀ {more : Nat}, Plain c t → s.operator? table c t = some more →
    R (.operator, c :: t.take more) (t.drop more))
  (hname : ∀ {k : TokenKind}, Lexeme.startsName c = true →
    R (k, c :: t.take (Lexeme.runLength Lexeme.continuesName t))
      (t.drop (Lexeme.runLength Lexeme.continuesName t)))
include hstarts hoperator hname

theorem Inside.followed (h : Inside s table frame outer c t lexed) :
    R (lexed.kind, c :: t.take lexed.more) (t.drop lexed.more) := by
  have hlast : ∀ {k : TokenKind} {v rest : List Char} {a : Char}, v.getLast? = some a →
      Lexeme.isMark a = true ∨ a.isDigit = true → R (k, v) rest := by
    intro k v rest a ha hmark
    refine hends fun b hb => ?_
    rw [ha] at hb
    cases hb
    exact hmark
  cases h with
  | endQuote _ hc =>
    subst hc
    exact hlast rfl (.inl rfl)
  | interpolate _ _ ht =>
    obtain ⟨u, rfl⟩ := List.head?_eq_some_iff.1 ht
    exact hlast rfl (.inl rfl)
  | literal _ hc ht =>
    obtain ⟨n, hn⟩ := Nat.exists_eq_add_one.2 (Lexeme.literalLength_pos hc ht)
    have hdrop := Lexeme.drop_literalLength (c :: t)
    rw [hn, List.drop_succ_cons] at hdrop
    rw [hn, Nat.add_sub_cancel]
    refine hstarts fun a ha => ?_
    obtain ⟨r, hr⟩ := List.head?_eq_some_iff.1 ha
    rw [hr] at hdrop
    rcases hdrop with hdrop | hdrop | hdrop
    · cases hdrop
    · cases hdrop
      rfl
    · rw [(List.cons.inj hdrop).1]
      rfl
  | close hend =>
    have hall : ∀ v ∈ Frame.allEnds, v.all Lexeme.isMark = true := by decide
    have hmark := List.all_eq_true.1 (hall _ (Frame.mem_allEnds hend))
    exact hends fun a ha => .inl (hmark a (List.mem_of_getLast? ha))
  | read _ _ h =>
    cases h with
    | layout _ =>
      have := @hpiece (Lexeme.layoutAt c t).1.codeKind c t [] nofun
      rwa [List.append_nil] at this
    | spread _ h | arrow _ _ h =>
      obtain ⟨rfl, rfl⟩ := List.cons.inj (Text.after?_eq_some_iff.1 h)
      exact hlast rfl (.inl rfl)
    | operator hplain h => exact hoperator hplain h
    | name _ _ h =>
      rw [nameLexed_more]
      exact hname h
    | number _ _ _ h =>
      obtain ⟨a, ha, hdigit⟩ := Lexeme.getLast?_number (t := t) h
      exact hlast ha (.inr hdigit)
    | punctuation hplain _ hname hdigit h =>
      rw [(punctuation?_ok h).2]
      exact hlast rfl (.inl (by simp [Lexeme.isMark, hplain.solid, Lexeme.continuesName, hname, hdigit]))
    | string _ _ _ h => exact hlast (Lexeme.getLast?_singleQuoted h c) (.inl rfl)
    | quote _ _ hc =>
      subst hc
      exact hlast rfl (.inl rfl)

theorem step_followed (h : s.step table c t = .ok (s', rest)) :
    ∃ new, s'.emitted = s.emitted ++ new ∧ Followed R new rest :=
  step_adds (P := fun _ => Followed R) (Data.followed hends hpiece)
    (fun hlexed => ⟨hlexed.followed hends hstarts hpiece hoperator hname, trivial⟩) h

end Cuts

end Lexer

/-! ### Lexemes that cut no line break -/

/-- No lexeme ends between a carriage return and its line feed; `rest` is the text behind them. -/
def Unsplit : List Lexeme → List Char → Prop :=
  Followed fun l t => l.2.getLast? = some '\r' → t.head? ≠ some '\n'

theorem unsplit_append {ms : List Lexeme} :
    Unsplit (ls ++ ms) rest ↔ Unsplit ls (spell ms ++ rest) ∧ Unsplit ms rest := followed_append

theorem unsplit_singleton {k : TokenKind} (hv : v.getLast? ≠ some '\r') (rest : List Char) :
    Unsplit [(k, v)] rest := ⟨fun h => absurd h hv, trivial⟩

theorem unsplit_head (h : ∀ a ∈ rest.head?, Lexeme.isMark a = true) : rest.head? ≠ some '\n' := by
  intro hhead
  cases h _ hhead

theorem getLast?_ne_of_forall {p : Char → Prop} {a : Char} (hv : ∀ c ∈ v, p c) (ha : ¬p a) :
    v.getLast? ≠ some a :=
  fun h => ha (hv a (List.mem_of_getLast? h))

namespace Lexeme

theorem getLast?_run_ne {p : Char → Bool} {c a : Char} (t : List Char) (hc : p c = true)
    (ha : p a = false) : (c :: t.take (runLength p t)).getLast? ≠ some a := by
  refine getLast?_ne_of_forall (p := fun d => p d = true) ?_ (by simp [ha])
  rw [take_runLength]
  intro d hd
  rcases List.mem_cons.1 hd with rfl | hd
  · exact hc
  · exact of_mem_takeWhile hd

theorem layoutAt_unsplit (c : Char) (t : List Char) (hrest : rest.head? ≠ some '\n')
    (h : (c :: t.take (layoutAt c t).2).getLast? = some '\r') :
    (t.drop (layoutAt c t).2 ++ rest).head? ≠ some '\n' := by
  cases hc : Text.isLayout c with
  | false =>
    rw [layoutAt_of_solid hc] at h
    exact absurd h (getLast?_run_ne t (by simp [hc]) rfl)
  | true =>
    simp only [Text.isLayout, Bool.or_eq_true, beq_iff_eq] at hc
    rcases hc with ((rfl | rfl) | rfl) | rfl
    · exact absurd h (getLast?_run_ne (p := (· == ' ')) t rfl rfl)
    · exact absurd h (getLast?_run_ne (p := (· == '\t')) t rfl rfl)
    · have hmore : (layoutAt '\r' t).2 = if t.head? == some '\n' then 1 else 0 := rfl
      rw [hmore] at h ⊢
      cases t with
      | nil => exact hrest
      | cons d t =>
        by_cases hd : d = '\n'
        · simp [hd] at h
        · simp [hd]
    · cases h

end Lexeme

/-! ### Lexemes of a template -/

namespace Lexer

variable {s s' : Lexer} {table : OperatorTable} {c : Char}
  {t rest : List Char}

theorem step_unsplit (h : s.step table c t = .ok (s', rest)) :
    ∃ new, s'.emitted = s.emitted ++ new ∧ Unsplit new rest := by
  refine step_followed ?_ ?_ ?_ ?_ ?_ h
  · intro k v rest hends hlast
    rcases hends _ hlast with hmark | hdigit
    · cases hmark
    · cases hdigit
  · exact fun hstarts _ => unsplit_head hstarts
  · exact fun hstarts => Lexeme.layoutAt_unsplit _ _ (unsplit_head hstarts)
  · exact fun hplain hop hlast => absurd hlast (operator?_last hplain.solid hop)
  · intro k hc hlast
    exact absurd hlast (Lexeme.getLast?_run_ne t (by simp [Lexeme.continuesName, hc]) rfl)

theorem run_unsplit (h : run table s t = .ok s') (hs : Unsplit s.emitted t) :
    Unsplit s'.emitted [] := run_followed step_unsplit h hs

end Lexer

/-! ### Positions -/

/-- The position behind some lexemes, added up one by one. -/
def placeBehind (p : Position) (ls : List Lexeme) : Position := ls.foldl (fun p l => p.after l.2) p

theorem placeBehind_append (p : Position) (ls ms : List Lexeme) :
    placeBehind p (ls ++ ms) = placeBehind (placeBehind p ls) ms := List.foldl_append

theorem placeBehind_eq (h : Unsplit ls rest) (p : Position) :
    placeBehind p ls = p.after (spell ls) := by
  induction ls generalizing p rest with
  | nil => rfl
  | cons l ls ih =>
    have hseam : l.2.getLast? = some '\r' → (spell ls).head? ≠ some '\n' := by
      intro hlast hhead
      refine h.1 hlast ?_
      rw [List.head?_append, hhead, Option.some_or]
    rw [spell_cons, Position.after_append hseam, ← ih h.2]
    rfl

namespace Lexer

variable {s s' : Lexer} {table : OperatorTable} {frame : Frame} {c : Char} {t rest : List Char}
  {lexed : Lexed}

/-- Every token stands behind the lexemes before it, and the next one behind all of them. -/
structure Placed (s : Lexer) : Prop where
  tokens : ∀ i token, s.tokens[i]? = some token →
    token.position = placeBehind Position.start (s.emitted.take i)
  next : s.position = placeBehind Position.start s.emitted

section

variable (h : s.Placed)
include h

theorem Placed.emit (kind : TokenKind) (value : List Char) : (s.emit kind value).Placed := by
  have hlength : s.emitted.length = s.tokens.size := by simp [emitted]
  refine ⟨?_, ?_⟩
  · intro i token hget
    rw [emitted_emit]
    rcases Nat.lt_trichotomy i s.tokens.size with hlt | rfl | hgt
    · rw [List.take_append_of_le_length (by omega)]
      refine h.tokens i token ?_
      rw [← hget]
      exact (Array.getElem?_push_lt hlt).symm ▸ by simp [hlt]
    · rw [← hlength, List.take_left, ← h.next]
      have : (s.tokens.push _)[s.tokens.size]? = some token := hget
      rw [Array.getElem?_push_size] at this
      cases this
      rfl
    · have : (s.emit kind value).tokens.size = s.tokens.size + 1 := by simp [Lexer.emit]
      have := (Array.getElem?_eq_some_iff.1 hget).1
      omega
  · rw [emitted_emit, placeBehind_append, ← h.next]
    rfl

theorem Placed.emitAll (pieces : List Lexeme) : (s.emitAll pieces).Placed := by
  induction pieces generalizing s with
  | nil => exact h
  | cons p pieces ih => exact ih (h.emit p.1 p.2)

theorem Placed.pair (first second : Nat) : (s.pair first second).Placed := by
  refine ⟨?_, by rw [emitted_pair]; exact h.next⟩
  intro i token hget
  rw [emitted_pair]
  simp only [Lexer.pair, Array.getElem?_modify] at hget
  cases htoken : s.tokens[i]? with
  | none => simp [htoken] at hget
  | some token' =>
    have hposition : token.position = token'.position := by
      rw [htoken] at hget
      split at hget <;> split at hget <;> cases hget <;> rfl
    rw [hposition]
    exact h.tokens i token' htoken

theorem Placed.set (frames : List Frame) (verbatim : Bool) (directives : List ViolationId) :
    (⟨s.tokens, s.position, frames, verbatim, directives⟩ : Lexer).Placed := ⟨h.tokens, h.next⟩

theorem Placed.take : (s.take frame lexed c t).Placed := by
  unfold Lexer.take
  cases lexed.partner with
  | none => exact (h.set _ _ _).emit _ _
  | some first => exact ((h.set _ _ _).emit _ _).pair _ _

theorem Placed.comment {start : List Char} (hcomment : s.comment start t = .ok (s', rest)) :
    s'.Placed := by
  unfold Lexer.comment at hcomment
  simp only at hcomment
  split at hcomment
  · cases hcomment
  · cases hcomment
    exact (((h.emit _ _).set _ _ _).emitAll _).emit _ _

theorem Placed.data (hdata : s.data t = .ok (s', rest)) : s'.Placed := by
  unfold Lexer.data at hdata
  rcases Delimiter.find s.verbatim 0 t with ⟨before, found⟩
  simp only at hdata
  split at hdata
  · cases hdata
    exact h.emitAll _
  · cases hdata
    exact ((h.emitAll _).emit _ _).set _ _ _
  · cases hdata
    exact ((h.emitAll _).emit _ _).set _ _ _
  · exact ((h.emitAll _).set _ _ _).comment hdata

theorem Placed.step (hstep : s.step table c t = .ok (s', rest)) : s'.Placed := by
  obtain ⟨-, hdata⟩ | ⟨frame, outer, lexed, -, -, rfl, -⟩ := step_cases hstep
  · exact h.data hdata
  · exact h.take

theorem Placed.run (hrun : run table s t = .ok s') : s'.Placed :=
  run_keeps (P := fun s _ => s.Placed) Placed.step h hrun

end

theorem placed_init : ({} : Lexer).Placed := ⟨nofun, rfl⟩

end Lexer

/-- The text of the tokens before an index. -/
def TokenStream.textBefore (s : TokenStream) (i : Nat) : List Char :=
  ((s.tokens.toList.take i).map (·.value)).flatten

/-- **A token stands where its first character stands.** Its line is one more than the line breaks
    of the text before it, its column one more than the characters after the last of them. -/
theorem tokenize_positions {table : OperatorTable} {source : List Char} {t : Template}
    (h : tokenize table source = .ok t) {i : Nat} {token : Token}
    (hget : t.stream.get? i = some token) :
    token.line = 1 + lineBreakCount (t.stream.textBefore i) ∧
      token.column = 1 + (lastLine (t.stream.textBefore i)).length := by
  obtain ⟨s, hrun, -, rfl⟩ := tokenize_eq_ok_iff.1 h
  have hplaced : (s.emit .eof []).Placed := (Lexer.placed_init.run hrun).emit _ _
  have hunsplit : Unsplit (s.emit .eof []).emitted [] := by
    rw [Lexer.emitted_emit, unsplit_append]
    exact ⟨Lexer.run_unsplit hrun trivial, nofun, trivial⟩
  have hposition := hplaced.tokens i token hget
  have htext : spell ((s.emit .eof []).emitted.take i) =
      TokenStream.textBefore ⟨(s.emit .eof []).tokens, false⟩ i := by
    rw [spell, Lexer.emitted, ← List.map_take, List.map_map]
    rfl
  rw [← List.take_append_drop i (s.emit .eof []).emitted, unsplit_append] at hunsplit
  rw [placeBehind_eq hunsplit.1, htext, Position.start_after] at hposition
  rw [Token.line, Token.column, hposition]
  exact ⟨rfl, rfl⟩

/-- The name in the second variable, behind a line break of two characters and a tab. -/
theorem tokenize_positions_second :
    ∃ t token, tokenize OperatorTable.default
        "a\x7b\x7b b\x7d\x7d\r\n\tc \x7b\x7b d \x7d\x7d".toList = .ok t ∧
      t.stream.get? 11 = some token ∧ token.value = ['d'] ∧ token.line = 2 ∧ token.column = 7 := by
  obtain ⟨t, ht⟩ := exists_ok_of_isOk (x := tokenize OperatorTable.default
    "a\x7b\x7b b\x7d\x7d\r\n\tc \x7b\x7b d \x7d\x7d".toList) (by decide +kernel)
  have hget : (t.stream.get? 11).map Token.value = some ['d'] := by
    have : (tokenize OperatorTable.default
      "a\x7b\x7b b\x7d\x7d\r\n\tc \x7b\x7b d \x7d\x7d".toList).toOption.bind
        (fun t => (t.stream.get? 11).map Token.value) = some ['d'] := by decide +kernel
    rwa [ht] at this
  have hbefore : t.stream.textBefore 11 = "a\x7b\x7b b\x7d\x7d\r\n\tc \x7b\x7b ".toList := by
    have : (tokenize OperatorTable.default
      "a\x7b\x7b b\x7d\x7d\r\n\tc \x7b\x7b d \x7d\x7d".toList).toOption.map
        (fun t => t.stream.textBefore 11) =
          some "a\x7b\x7b b\x7d\x7d\r\n\tc \x7b\x7b ".toList := by decide +kernel
    rw [ht] at this
    exact Option.some.inj this
  obtain ⟨token, htoken, hvalue⟩ := Option.map_eq_some_iff.1 hget
  obtain ⟨hline, hcolumn⟩ := tokenize_positions ht htoken
  rw [hbefore] at hline hcolumn
  exact ⟨t, token, ht, htoken, hvalue, hline, hcolumn⟩

end TwigStyle
