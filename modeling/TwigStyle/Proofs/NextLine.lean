import TwigStyle.Proofs.Comments
import TwigStyle.Proofs.Parted
import TwigStyle.Proofs.Suppression

/-!
# The line after a comment

A directive for the next line binds what it lists to a line, except what names a line itself.  That
line is the one after the start of the comment, wherever the comment ends (`tokenize_nextLine`).  It
is the line after the comment exactly if no line breaks in the comment.
-/

namespace TwigStyle

/-! ### Lines of tokens -/

theorem lineBreakCount_of_solid {v : List Char} (hv : ∀ c ∈ v, Text.isLayout c = false)
    (t : List Char) : lineBreakCount (v ++ t) = lineBreakCount t := by
  have hlast : v.getLast? ≠ some '\r' :=
    getLast?_ne_of_forall (p := (Text.isLayout · = false)) hv (by decide)
  have hzero : lineBreakCount v = 0 := by
    refine lineBreakCount_eq_zero_iff.2 (List.any_eq_false.2 fun c hc hends => ?_)
    have hbreak : c = '\r' ∨ c = '\n' := by simpa [endsLine] using hends
    rcases hbreak with rfl | rfl <;> cases hv _ hc
  rw [lineBreakCount_append fun h => absurd h hlast, hzero, Nat.zero_add]

theorem Lexer.Placed.position {s : Lexer} (h : s.Placed) {ts us : List Token} {a : Token}
    (hsplit : s.tokens.toList = ts ++ a :: us) :
    a.position = placeBehind Position.start (ts.map Token.lexeme) := by
  have hget : s.tokens[ts.length]? = some a := by
    rw [← Array.getElem?_toList, hsplit, List.getElem?_append_right (Nat.le_refl _), Nat.sub_self]
    rfl
  rw [h.tokens _ _ hget, Lexer.emitted, hsplit, List.map_append,
    List.take_left' (List.length_map _)]

section Tokens

variable {table : OperatorTable} {source : List Char} {t : Template}
  {before mid body after : List Token} {a b start stop : Token}

theorem tokenize_distance (h : tokenize table source = .ok t)
    (hsplit : t.stream.tokens.toList = before ++ a :: (mid ++ b :: after)) :
    b.position = a.position.after (a.value ++ valuesText mid) := by
  have hunsplit := tokenize_unsplit h
  obtain ⟨s, hrun, -, rfl⟩ := tokenize_eq_ok_iff.1 h
  have hplaced : (s.emit .eof []).Placed := (Lexer.placed_init.run hrun).emit _ _
  have hsplit' : (s.emit .eof []).tokens.toList = (before ++ a :: mid) ++ b :: after := by
    rw [List.append_assoc, List.cons_append]
    exact hsplit
  have hmid : ∃ rest, Unsplit ((a :: mid).map Token.lexeme) rest := by
    rw [TokenStream.lexemes, hsplit', List.map_append, List.map_append, unsplit_append,
      unsplit_append] at hunsplit
    exact ⟨_, hunsplit.1.2⟩
  obtain ⟨rest, hmid⟩ := hmid
  rw [hplaced.position hsplit', List.map_append, placeBehind_append, ← hplaced.position hsplit,
    placeBehind_eq hmid, ← valuesText_eq]
  rfl

theorem IsComment.line_stop (hcomment : IsComment start body stop)
    (h : tokenize table source = .ok t)
    (hsplit : t.stream.tokens.toList = before ++ start :: (body ++ stop :: after)) :
    stop.line = start.line + lineBreakCount (valuesText body) := by
  obtain ⟨hsolid, -⟩ :=
    exists_comment h (TokenStream.lexemes_of_commentStart hsplit hcomment.start_kind)
  rw [Token.line, tokenize_distance h hsplit, Position.after_eq, lineBreakCount_of_solid hsolid]
  rfl

/-! ### Directives on both sides of a comment -/

theorem commentText_of_closed (h : ∃ u ∈ mid, u.kind = .commentEnd) :
    commentText (mid ++ after) = commentText mid := by
  obtain ⟨u, hu, hkind⟩ := h
  have hshort : (mid.takeWhile (·.kind != .commentEnd)).length ≠ mid.length := by
    intro hlength
    have hall := List.all_eq_true.1 (List.all_takeWhile (p := (·.kind != .commentEnd)) (l := mid))
    rw [(List.takeWhile_prefix _).eq_of_length hlength] at hall
    simpa [hkind] using hall u hu
  rw [commentText, List.takeWhile_append, if_neg hshort]
  rfl

/-- If every comment ends that starts in a row of tokens, what follows the row does not matter. -/
theorem directivesIn_of_closed
    (h : ∀ us a vs, before = us ++ a :: vs → a.kind = .commentStart →
      ∃ u ∈ vs, u.kind = .commentEnd) :
    directivesIn (before ++ after) = directivesIn before ++ directivesIn after := by
  induction before with
  | nil => rfl
  | cons a ts ih =>
    have hrest := ih fun us b vs hts => h (a :: us) b vs (by rw [hts, List.cons_append])
    rw [List.cons_append, directivesIn, directivesIn, hrest, List.append_assoc]
    split
    · rename_i hkind
      rw [commentText_of_closed (h [] a ts rfl hkind)]
    · rfl

theorem IsComment.closed (hcomment : IsComment start body stop) (h : tokenize table source = .ok t)
    (hsplit : t.stream.tokens.toList = before ++ start :: (body ++ stop :: after)) :
    ∀ us a vs, before = us ++ a :: vs → a.kind = .commentStart → ∃ u ∈ vs, u.kind = .commentEnd := by
  rintro us a vs rfl ha
  rw [List.append_assoc, List.cons_append] at hsplit
  obtain ⟨body', stop', after', hrest, hcomment'⟩ := exists_isComment h hsplit ha
  have hstart := hcomment.start_kind
  rcases List.append_eq_append_iff.1 hrest with ⟨w, hbody, hw⟩ | ⟨w, rfl, hw⟩
  · -- The other comment would go on to the start of this one.
    cases w with
    | nil =>
      obtain ⟨rfl, -⟩ := List.cons.inj hw
      exact absurd (hstart.symm.trans hcomment'.stop_kind) nofun
    | cons u w =>
      obtain ⟨rfl, -⟩ := List.cons.inj hw
      have hkind := hcomment'.body_kinds start (by simp [hbody])
      rw [hstart] at hkind
      exact absurd hkind (by decide)
  · cases w with
    | nil =>
      obtain ⟨rfl, -⟩ := List.cons.inj hw
      exact absurd (hstart.symm.trans hcomment'.stop_kind) nofun
    | cons u w =>
      obtain ⟨rfl, -⟩ := List.cons.inj hw
      exact ⟨stop', List.mem_append_right body' List.mem_cons_self, hcomment'.stop_kind⟩

end Tokens

/-! ### Directives for the next line -/

/-- A pattern on a line, unless it names a line itself. -/
def ViolationId.boundTo (line : Nat) (p : ViolationId) : ViolationId :=
  { p with line := p.line.or (some line) }

/-- The patterns that a directive lists, on no line: one for each item, and one that fits everything
    if there is none. -/
def Directive.patterns (ids : List Char) : List ViolationId :=
  match items ids with
  | [] => [{}]
  | items => items.map (ViolationId.parse · none)

theorem Directive.parse?_nextLine {comment ids : List Char}
    (h : split? comment = some (.nextLine, ids)) (line : Nat) :
    parse? comment line =
      some ((patterns ids).map (ViolationId.boundTo (Text.nextCount line))) := by
  rw [parse?_of_split? h, patterns]
  cases items ids with
  | nil => rfl
  | cons first rest =>
    have hbound : ∀ text, ViolationId.parse text (some (Text.nextCount line)) =
        (ViolationId.parse text none).boundTo (Text.nextCount line) := by
      intro text
      simp [ViolationId.parse, ViolationId.boundTo]
    rw [List.map_map]
    exact congrArg some (List.map_congr_left fun text _ => hbound text)

/-- **A directive for the next line counts from the start of its comment.** Each pattern that it lists
    is bound to the line after the one on which the comment starts, unless the pattern names a line
    itself.  That is the line after the comment exactly if no line breaks in the comment. -/
theorem tokenize_nextLine {table : OperatorTable} {source ids : List Char} {t : Template}
    {before body after : List Token} {start stop : Token} (h : tokenize table source = .ok t)
    (hsplit : t.stream.tokens.toList = before ++ start :: (body ++ stop :: after))
    (hcomment : IsComment start body stop)
    (hdirective : Directive.split? (valuesText body) = some (.nextLine, ids)) :
    t.directives = directivesIn before ++
        (Directive.patterns ids).map (ViolationId.boundTo (Text.nextCount start.line)) ++
        directivesIn after ∧
      stop.line = start.line + lineBreakCount (valuesText body) ∧
      (start.line < Text.maxCount →
        (Text.nextCount start.line = stop.line + 1 ↔ (valuesText body).any endsLine = false)) := by
  have hline := hcomment.line_stop h hsplit
  refine ⟨?_, hline, fun hcount => ?_⟩
  · rw [directives_eq h, hsplit, directivesIn_of_closed (hcomment.closed h hsplit),
      directivesIn_comment hcomment.start_kind hcomment.body_kinds hcomment.stop_kind,
      Directive.parse?_nextLine hdirective, List.append_assoc]
    rfl
  · rw [← lineBreakCount_eq_zero_iff, Text.nextCount, if_pos hcount, hline]
    omega

/-- A comment on one line, with a pattern that names its line. -/
theorem tokenize_nextLine_single :
    ∃ t before start body stop after, tokenize OperatorTable.default
        "\n\x7b#twig-cs-fixer-disable-next-line B,C:9#\x7d".toList = .ok t ∧
      t.stream.tokens.toList = before ++ start :: (body ++ stop :: after) ∧
      IsComment start body stop ∧
      Directive.split? (valuesText body) = some (.nextLine, "B,C:9".toList) ∧
      t.directives = directivesIn before ++ (Directive.patterns "B,C:9".toList).map
        (ViolationId.boundTo (Text.nextCount start.line)) ++ directivesIn after ∧
      Text.nextCount start.line = stop.line + 1 := by
  obtain ⟨body, hbody⟩ : ∃ body : List Token, body = [
      ⟨.commentText, "twig-cs-fixer-disable-next-line".toList, ⟨2, 3⟩, none⟩,
      ⟨.commentSpaces, [' '], ⟨2, 34⟩, none⟩, ⟨.commentText, "B,C:9".toList, ⟨2, 35⟩, none⟩] := ⟨_, rfl⟩
  have htokens : (tokenize OperatorTable.default
      "\n\x7b#twig-cs-fixer-disable-next-line B,C:9#\x7d".toList).toOption.map
        (·.stream.tokens.toList) =
      some ([⟨.lineBreak, ['\n'], ⟨1, 1⟩, none⟩] ++ ⟨.commentStart, ['\x7b', '#'], ⟨2, 1⟩, none⟩ ::
        (body ++ ⟨.commentEnd, ['#', '\x7d'], ⟨2, 40⟩, none⟩ :: [⟨.eof, [], ⟨2, 42⟩, none⟩])) := by
    rw [hbody]
    decide +kernel
  have hkinds : ∀ token ∈ body, token.kind ∈ Zone.comment.kinds := by
    rw [hbody]
    decide
  have hdirective : Directive.split? (valuesText body) = some (.nextLine, "B,C:9".toList) := by
    rw [hbody]
    decide +kernel
  have hbreak : (valuesText body).any endsLine = false := by
    rw [hbody]
    decide +kernel
  obtain ⟨t, ht⟩ := exists_ok_of_isOk (x := tokenize OperatorTable.default
    "\n\x7b#twig-cs-fixer-disable-next-line B,C:9#\x7d".toList) (by decide +kernel)
  rw [ht] at htokens
  have hsplit := Option.some.inj htokens
  have hcomment : IsComment ⟨.commentStart, ['\x7b', '#'], ⟨2, 1⟩, none⟩ body
      ⟨.commentEnd, ['#', '\x7d'], ⟨2, 40⟩, none⟩ := ⟨rfl, hkinds, rfl⟩
  obtain ⟨hdirectives, -, hnext⟩ := tokenize_nextLine ht hsplit hcomment hdirective
  exact ⟨t, _, _, _, _, _, ht, hsplit, hcomment, hdirective, hdirectives,
    (hnext (by decide)).2 hbreak⟩

/-- A comment over two lines: what it lists is bound to the line on which it ends. -/
theorem tokenize_nextLine_broken :
    (tokenize OperatorTable.default
      "\x7b# twig-cs-fixer-disable-next-line\nIndent #\x7d\n".toList).toOption.map (fun t =>
        ((t.stream.tokens.toList.filter (·.kind == .commentEnd)).map Token.line, t.directives)) =
      some ([2], [{ rule := some "Indent", line := some 2 }]) := by
  decide +kernel

end TwigStyle
