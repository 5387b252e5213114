import Mathlib.Data.List.Basic
import TwigStyle.Proofs.Grammar
import TwigStyle.Proofs.KeptLines
import TwigStyle.Proofs.Lines

/-!
# Blanks at the end of a line

The rule about blanks at the end of a line looks at tokens: it wants no token of blanks before a line
break or the end of the file.  In the text there can be blanks at the end of a line besides those, for
a line can end in the middle of a token.  Only strings and operators of several words go over a line
(`Lexeme.Housed`), so once a file is fixed, every blank at the end of a line is in one of these
(`fixFile_trims`).
-/

namespace TwigStyle

variable {table : OperatorTable} {source : List Char} {t : Template} {k : Nat}

/-! ### Tokens with layout in them -/

/-- Layout stands in lexemes of layout, in strings, and between the words of an operator. -/
def Lexeme.Housed (table : OperatorTable) (l : Lexeme) : Prop :=
  ∀ c ∈ l.2, Text.isLayout c = true → l.1 ∈ TokenKind.layout ∨ l.1 = .string ∨
    l.1 = .operator ∧ ∃ op ∈ table.operators, 2 ≤ op.words.length ∧ Operator.Spells op.words l.2

namespace Lexeme

variable {table : OperatorTable} {k : TokenKind} {v : List Char}

theorem housed_of_solid (hv : ∀ c ∈ v, Text.isLayout c = false) : Housed table (k, v) := by
  intro c hc hlayout
  rw [hv c hc] at hlayout
  cases hlayout

theorem housed_of_all (hv : v.all (!Text.isLayout ·) = true) : Housed table (k, v) :=
  housed_of_solid fun c hc => by simpa using List.all_eq_true.1 hv c hc

theorem layoutPieces_solid (t : List Char) :
    ∀ p ∈ layoutPieces t, p.1 = .text → ∀ c ∈ p.2, Text.isLayout c = false := by
  fun_induction layoutPieces t with
  | case1 => simp
  | case2 c t more ih =>
    intro p hp
    rcases List.mem_cons.1 hp with rfl | hp
    · intro htext
      cases hc : Text.isLayout c with
      | true => exact absurd htext (layoutAt_of_layout hc t).1
      | false =>
        change ∀ d ∈ c :: t.take (layoutAt c t).2, _
        rw [layoutAt_of_solid hc, take_runLength]
        intro d hd
        rcases List.mem_cons.1 hd with rfl | hd
        · exact hc
        · simpa using of_mem_takeWhile hd
    · exact ih p hp

theorem housed_layoutPieces {kind : LayoutClass → TokenKind} (hkind : TellsLayout kind) {t : List Char}
    {p : LayoutClass × List Char} (hp : p ∈ layoutPieces t) : Housed table (kind p.1, p.2) := by
  by_cases htext : p.1 = .text
  · exact housed_of_solid (layoutPieces_solid t p hp htext)
  · refine fun _ _ _ => .inl (List.contains_iff_mem.1 ?_)
    rw [hkind, bne_iff_ne]
    exact htext

end Lexeme

namespace Lexer

variable {s : Lexer} {table : OperatorTable} {frame : Frame} {outer : List Frame} {c : Char}
  {t rest : List Char} {lexed : Lexed}

theorem Reading.housed (h : Reading s table frame outer c t lexed) :
    Lexeme.Housed table (lexed.kind, c :: t.take lexed.more) := by
  have hone : ∀ {kind : TokenKind}, Text.isLayout c = false →
      Lexeme.Housed table (kind, c :: t.take 0) :=
    fun hc => Lexeme.housed_of_all (by simp [hc])
  cases h with
  | layout hc =>
    refine fun _ _ _ => .inl (List.contains_iff_mem.1 ?_)
    rw [codeKind_tells, bne_iff_ne]
    exact (Lexeme.layoutAt_of_layout hc t).1
  | spread _ h =>
    obtain ⟨rfl, rfl⟩ := List.cons.inj (Text.after?_eq_some_iff.1 h)
    exact Lexeme.housed_of_all rfl
  | arrow _ _ h =>
    obtain ⟨rfl, rfl⟩ := List.cons.inj (Text.after?_eq_some_iff.1 h)
    exact Lexeme.housed_of_all rfl
  | operator hplain h =>
    rcases spells_of_operator? h with rfl | ⟨op, hop, hspells⟩
    · exact hone hplain.solid
    · intro d hd hlayout
      have hblank := isBlank_of_isLayout hlayout
      exact .inr (.inr ⟨rfl, op, hop, hspells.two_le op.words_solid hd hblank, hspells⟩)
  | name _ _ h =>
    rw [nameLexed_more, Lexeme.take_runLength]
    refine Lexeme.housed_of_solid fun d hd => ?_
    have hname : Lexeme.continuesName d = true := by
      rcases List.mem_cons.1 hd with rfl | hd
      · simp [Lexeme.continuesName, h]
      · exact of_mem_takeWhile hd
    cases hlayout : Text.isLayout d with
    | false => rfl
    | true =>
      rw [continuesName_of_isLayout hlayout] at hname
      cases hname
  | number _ _ _ h =>
    obtain ⟨w, f, x, hparts⟩ := Lexeme.number_parts (t := t) h
    exact Lexeme.housed_of_solid hparts.chars.1
  | punctuation hplain _ _ _ h =>
    rw [(punctuation?_ok h).2]
    exact hone hplain.solid
  | string => exact fun _ _ _ => .inr (.inl rfl)
  | quote hplain _ _ => exact hone hplain.solid

theorem Inside.housed (h : Inside s table frame outer c t lexed) :
    Lexeme.Housed table (lexed.kind, c :: t.take lexed.more) := by
  cases h with
  | endQuote _ hc =>
    subst hc
    exact Lexeme.housed_of_all rfl
  | interpolate _ hc ht =>
    obtain ⟨u, rfl⟩ := List.head?_eq_some_iff.1 ht
    subst hc
    exact Lexeme.housed_of_all rfl
  | literal => exact fun _ _ _ => .inr (.inl rfl)
  | close hend =>
    have hends : ∀ v ∈ Frame.allEnds, v.all (!Text.isLayout ·) = true := by decide
    exact Lexeme.housed_of_all (hends _ (Frame.mem_allEnds hend))
  | read _ _ h => exact h.housed

theorem Data.housed {verbatim verbatim' : Bool} {new : List Lexeme} {frames : List Frame}
    (h : Data verbatim t new frames verbatim' rest) : ∀ l ∈ new, l.Housed table := by
  refine h.forall ?_ ?_ ?_
  · exact fun p hp => ⟨Lexeme.housed_layoutPieces codeKind_tells hp,
      Lexeme.housed_layoutPieces commentKind_tells hp⟩
  · intro before value after k hfind kind _
    exact Lexeme.housed_of_solid (Delimiter.isLayout_of_mem_at? (Delimiter.find_found hfind).1)
  · intro after body stop rest hbody
    obtain ⟨-, hstop⟩ := Delimiter.commentEndAt?_eq_some_iff.1 (Delimiter.commentBody?_found hbody)
    rcases hstop with rfl | ⟨m, hm, rfl⟩
    · exact Lexeme.housed_of_all rfl
    · exact Lexeme.housed_of_all (by simp [Delimiter.isLayout_of_isTrimMarker hm]; decide)

end Lexer

theorem tokenize_housed (h : tokenize table source = .ok t) :
    ∀ l ∈ t.stream.lexemes, l.Housed table :=
  tokenize_forall Lexer.Data.housed Lexer.Inside.housed nofun h

/-! ### Tokens that start a line -/

theorem Word.getLast?_kind {zone : Zone} {direct ks : List TokenKind} (h : Word zone direct ks) :
    ∀ k ∈ ks.getLast?, k ∈ zone.kinds ∨ ∃ start inner, Encloses zone start k inner := by
  induction h with
  | nil => exact nofun
  | @token zone k direct ks hk _ ih =>
    intro k' hk'
    cases ks with
    | nil =>
      cases hk'
      exact .inl hk
    | cons k₁ ks => exact ih k' hk'
  | @enclose outer inner start stop direct ks inside body henclose _ _ _ _ ih =>
    intro k' hk'
    rw [← List.cons_append, List.getLast?_append] at hk'
    cases ks with
    | nil =>
      cases hk'
      exact .inr ⟨start, inner, henclose⟩
    | cons k₁ ks =>
      refine ih k' ?_
      rw [List.getLast?_cons_cons] at hk'
      cases hlast : (k₁ :: ks).getLast? with
      | none => simp at hlast
      | some k => simpa [hlast] using hk'

/-- A literal that starts with layout is part of a string. -/
theorem Lexer.Inside.frame_of_string {s : Lexer} {frame : Frame} {outer : List Frame} {c : Char}
    {t : List Char} {lexed : Lexed} (h : Lexer.Inside s table frame outer c t lexed)
    (hkind : lexed.kind = .string) (hc : Text.isLayout c = true) : frame = .quote := by
  cases h with
  | endQuote hframe | interpolate hframe | literal hframe => exact hframe
  | close hend =>
    rcases Lexer.endAt?_kind hend with hk | hk | hk <;> rw [hk] at hkind <;> cases hkind
  | read _ _ h =>
    cases h with
    | layout => cases hcls : (Lexeme.layoutAt c t).1 <;> simp only [hcls] at hkind <;> cases hkind
    | spread hsolid | arrow hsolid =>
      rw [hsolid] at hc
      cases hc
    | operator hplain | name hplain | number hplain | punctuation hplain | string hplain
      | quote hplain =>
      rw [hplain.solid] at hc
      cases hc

section Starts

variable {table : OperatorTable} {source : List Char} {t : Template} {ls ms : List Lexeme}
  {a : Lexeme} {v : List Char} {c : Char}

theorem string_behind (h : tokenize table source = .ok t)
    (hsplit : t.stream.lexemes = (ls ++ [a]) ++ (.string, c :: v) :: ms)
    (hc : Text.isLayout c = true) : a.1 ∉ TokenKind.layout := by
  obtain ⟨s, frame, outer, d, u, lexed, -, hgrammatical, hframes, hlexed, hls, hkind, hvalue, -, -, -⟩ :=
    tokenize_moment_inside (I := Lexer.Grammatical) (.closed .nil) Lexer.Grammatical.step h hsplit
      (by decide)
  obtain ⟨rfl, -⟩ := List.cons.inj hvalue
  obtain rfl := hlexed.frame_of_string hkind.symm hc
  unfold Lexer.Grammatical at hgrammatical
  rw [hframes, hls, List.map_append] at hgrammatical
  generalize hks : ls.map Prod.fst ++ [a].map Prod.fst = ks at hgrammatical
  cases hgrammatical with
  | @inside _ _ ks direct body _ _ hbody _ =>
    have hlast := congrArg List.getLast? hks
    rw [List.map_singleton, List.getLast?_concat,
      List.getLast?_append_of_ne_nil _ (List.cons_ne_nil _ _)] at hlast
    cases body with
    | nil =>
      rw [Option.some.inj hlast]
      decide
    | cons k body =>
      rw [List.getLast?_cons_cons] at hlast
      rcases hbody.getLast?_kind a.1 hlast.symm with hmem | ⟨start, inner, henclose⟩
      · rw [List.mem_singleton.1 hmem]
        decide
      · generalize a.1 = stop at henclose
        cases henclose
        decide

theorem lineEnd_behind (h : tokenize table source = .ok t) {k : Nat} {x y : Token}
    (hx : t.stream.get? k = some x) (hy : t.stream.get? (k + 1) = some y)
    (hlayout : x.kind ∈ TokenKind.layout) (hends : ∀ c ∈ y.value.head?, endsLine c = true) :
    y.kind ∈ Layout.lineEnds := by
  have hs := tokenize_regular h
  obtain ⟨us, vs, hsplit⟩ := TokenStream.get?_split_pair hx hy
  have hlexemes : t.stream.lexemes =
      (us.map Token.lexeme ++ [x.lexeme]) ++ y.lexeme :: vs.map Token.lexeme := by
    rw [TokenStream.lexemes, hsplit]
    simp
  have hmem : y.lexeme ∈ t.stream.lexemes := by simp [hlexemes]
  cases hvalue : y.value with
  | nil =>
    by_cases heof : y.kind = .eof
    · rw [heof]
      decide
    · exact absurd hvalue (hs.value y.lexeme hmem heof)
  | cons c v =>
    have hc : c = '\r' ∨ c = '\n' := by
      have := hends c (by rw [hvalue]; rfl)
      simpa [endsLine] using this
    have hcl : Text.isLayout c = true := by rcases hc with rfl | rfl <;> rfl
    have hcv : c ∈ y.lexeme.2 := by
      change c ∈ y.value
      rw [hvalue]
      exact List.mem_cons_self
    rcases tokenize_housed h y.lexeme hmem c hcv hcl with hkind | hkind | ⟨-, op, -, -, hspells⟩
    · have hbreaks : ∀ kind ∈ TokenKind.breaks, kind ∈ Layout.lineEnds := by decide
      rcases (tokenize_gaps h y.lexeme hmem).cases hkind with ⟨-, hrun⟩ | ⟨-, hrun⟩ | ⟨hbreak, -⟩
      · rcases hc with rfl | rfl <;> cases hrun _ hcv
      · rcases hc with rfl | rfl <;> cases hrun _ hcv
      · exact hbreaks _ hbreak
    · rw [show y.lexeme = (.string, c :: v) from Prod.ext hkind hvalue] at hlexemes
      exact absurd hlayout (string_behind h hlexemes hcl)
    · obtain ⟨d, hhead, hblank⟩ := hspells.head? op.words_solid
      have hd : some c = some d := by
        rw [← hhead]
        change some c = y.value.head?
        rw [hvalue]
        rfl
      cases hd
      rw [isBlank_of_isLayout hcl] at hblank
      cases hblank

end Starts

/-! ### Fixed files -/

theorem TokenStream.textBefore_eq (s : TokenStream) (i : Nat) :
    s.textBefore i = spell (s.lexemes.take i) := by
  rw [textBefore, spell, lexemes, ← List.map_take, List.map_map]
  rfl

theorem Layout.blanksStart_lt {s : TokenStream} (hsize : k + 1 < s.size)
    (hblank : s.kindIn k blanks = true) : blanksStart s (k + 1) < k + 1 := by
  unfold blanksStart
  cases hprev : s.previousOutside blanks (k + 1) with
  | none => exact Nat.succ_pos k
  | some j =>
    obtain ⟨hlt, ⟨x, hx, hkind⟩, -⟩ :=
      (TokenStream.previousOutside_eq_some_iff (Nat.le_of_lt hsize)).1 hprev
    have hne : j ≠ k := by
      rintro rfl
      obtain ⟨y, hy, hkind'⟩ := TokenStream.kindIn_iff.1 hblank
      obtain rfl : x = y := Option.some.inj (hx.symm.trans hy)
      exact hkind hkind'
    change j + 1 < k + 1
    omega

/-- Where a token of blanks ends a line in the text, it stands before the end of a line. -/
theorem trailing_of_blank (h : tokenize table source = .ok t) {x : Token}
    (hx : t.stream.get? k = some x) (hblank : x.kind ∈ Layout.blanks)
    (hsize : k + 1 < t.stream.size)
    (hends : ∀ c ∈ (spell (t.stream.lexemes.drop (k + 1))).head?, endsLine c = true) :
    t.stream.kindIn (k + 1) Layout.lineEnds = true ∧ Layout.blanksStart t.stream (k + 1) < k + 1 := by
  have hblanks : ∀ kind ∈ Layout.blanks, kind ∈ TokenKind.layout := by decide
  obtain ⟨y, hy⟩ := TokenStream.exists_get? hsize
  have hyends : ∀ c ∈ y.value.head?, endsLine c = true := by
    intro c hc
    refine hends c ?_
    have hget := TokenStream.lexeme_of_get? hy
    obtain ⟨hlt, hlexeme⟩ := List.getElem?_eq_some_iff.1 hget
    rw [List.drop_eq_getElem_cons hlt, hlexeme, spell_cons, List.head?_append]
    change _ ∈ y.value.head?.or _
    rw [hc]
    rfl
  have hkind := lineEnd_behind h hx hy (hblanks _ hblank) hyends
  exact ⟨TokenStream.kindIn_iff.2 ⟨y, hy, hkind⟩,
    Layout.blanksStart_lt hsize (TokenStream.kindIn_iff.2 ⟨x, hx, hblank⟩)⟩

/-- **A fixed file has no blanks at the end of a line,** apart from those inside of strings and between
    the words of an operator.  A rule has to forbid them on all paths, and no comment may silence it. -/
theorem fixFile_trims {fx fx' : Fixer} {rs : Ruleset} {file : SourceFile} {out : List Char}
    (hrs : ∀ r ∈ rs.rules, r.isBuiltIn = true) (hrule : .trailingSpace ∈ rs.rules)
    (h : fx.fixFile rs file = (.ok out, fx')) :
    ∃ t, tokenize fx.table out = .ok t ∧ (t.directives = [] → ∀ u c v, out = u ++ c :: v →
      isSpacing c = true → (∀ d ∈ v.head?, endsLine d = true) →
      ∃ i token a b, t.stream.get? i = some token ∧ u = t.stream.textBefore i ++ a ∧
        token.value = a ++ c :: b ∧ (token.kind = .string ∨ token.kind = .operator ∧
          ∃ op ∈ fx.table.operators, 2 ≤ op.words.length ∧ Operator.Spells op.words token.value)) := by
  obtain ⟨t, ht, hnil⟩ := Fixer.repairs_of_passes_ok hrs h
  refine ⟨t, ht, ?_⟩
  rintro hdirectives u c v rfl hc hends
  have hblank : c = ' ' ∨ c = '\t' := by simpa [isSpacing] using hc
  have hlayout : Text.isLayout c = true := by rcases hblank with rfl | rfl <;> rfl
  obtain ⟨ls, hls, hspell, -⟩ := tokenize_lexemes ht
  have hsource : spell t.stream.lexemes = u ++ c :: v := by
    rw [hls, spell_append, hspell]
    simp
  -- The token in which the blank stands, and the text behind it.
  obtain ⟨m, l, a, b, hm, hvalue, rfl⟩ := exists_of_spell hsource
  have hv : v = b ++ spell (t.stream.lexemes.drop (m + 1)) := by
    rw [spell_of_getElem? hm, hvalue] at hsource
    simpa using hsource.symm
  have hcl : c ∈ l.2 := by simp [hvalue]
  have hsize := EditBuffer.succ_lt_size hls hm (List.ne_nil_of_mem hcl)
  have hmem := List.mem_of_getElem? hm
  rw [t.stream.lexemes_getElem?] at hm
  obtain ⟨token, htoken, rfl⟩ := Option.map_eq_some_iff.1 hm
  rcases tokenize_housed ht token.lexeme hmem c hcl hlayout with hkind | hkind
  · -- A token of blanks that ends a line would have been emptied.
    exfalso
    obtain ⟨hblanks, -, hall⟩ := (tokenize_gaps ht token.lexeme hmem).of_blank hkind hcl hblank
    obtain rfl : b = [] := by
      cases b with
      | nil => rfl
      | cons d b =>
        have hd := hends d (by rw [hv]; rfl)
        rcases hall d (by simp [hvalue]) with rfl | rfl <;> cases hd
    rw [List.nil_append] at hv
    rw [hv] at hends
    obtain ⟨hend, hstart⟩ := trailing_of_blank ht htoken hblanks hsize hends
    have hchange : Proposes t.stream [] .trailingSpace _ := .trailing hend hstart
    obtain ⟨cmds, hcmds, -⟩ := Fixer.exists_repair hrule rfl hdirectives hchange
    rw [hnil] at hcmds
    cases hcmds
  · exact ⟨m, token, a, b, htoken, by rw [TokenStream.textBefore_eq], hvalue, hkind⟩

/-- A blank at the end of a line is gone, and the one in the string is left. -/
theorem fixFile_trims_string :
    (Fixer.fixFile ⟨OperatorTable.default, {}, [], #[]⟩ ⟨Standard.full.rules⟩ (.alone ⟨"a.twig"⟩
        "\x7b\x7b'a \nb'\x7d\x7d\t \n".toList)).1.toOption =
      some "\x7b\x7b 'a \nb' \x7d\x7d\n".toList ∧
    ∃ t i token a b, tokenize OperatorTable.default "\x7b\x7b 'a \nb' \x7d\x7d\n".toList = .ok t ∧
      t.directives = [] ∧ t.stream.get? i = some token ∧
      "\x7b\x7b 'a".toList = t.stream.textBefore i ++ a ∧ token.value = a ++ ' ' :: b ∧
      (token.kind = .string ∨ token.kind = .operator ∧ ∃ op ∈ OperatorTable.default.operators,
        2 ≤ op.words.length ∧ Operator.Spells op.words token.value) := by
  have hbuiltIn : ∀ r ∈ Standard.full.rules, r.isBuiltIn = true := by decide
  have hok : (Fixer.fixFile ⟨OperatorTable.default, {}, [], #[]⟩ ⟨Standard.full.rules⟩
      (.alone ⟨"a.twig"⟩ "\x7b\x7b'a \nb'\x7d\x7d\t \n".toList)).1.toOption =
        some "\x7b\x7b 'a \nb' \x7d\x7d\n".toList := by decide +kernel
  have hdirectives : (tokenize OperatorTable.default
      "\x7b\x7b 'a \nb' \x7d\x7d\n".toList).toOption.map Template.directives = some [] := by
    decide +kernel
  obtain ⟨t, ht, hall⟩ := fixFile_trims hbuiltIn (by decide) (Prod.ext (eq_ok_of_toOption hok) rfl)
  have ht' : tokenize OperatorTable.default "\x7b\x7b 'a \nb' \x7d\x7d\n".toList = .ok t := ht
  rw [ht'] at hdirectives
  obtain ⟨i, token, a, b, hget, hu, hvalue, hkind⟩ := hall (Option.some.inj hdirectives)
    "\x7b\x7b 'a".toList ' ' "\nb' \x7d\x7d\n".toList (by decide +kernel) rfl (by
      rintro d ⟨⟩
      rfl)
  exact ⟨hok, t, i, token, a, b, ht', Option.some.inj hdirectives, hget, hu, hvalue, hkind⟩

/-- An operator of two words goes over a line, with a blank at the end of the first one. -/
theorem fixFile_keeps_blank :
    (Fixer.fixFile ⟨OperatorTable.default, {}, [], #[]⟩ ⟨Standard.full.rules⟩ (.alone ⟨"a.twig"⟩
        "\x7b\x7b a not \nin b \x7d\x7d\n".toList)).1.toOption =
      some "\x7b\x7b a not \nin b \x7d\x7d\n".toList ∧
    (tokenize OperatorTable.default "\x7b\x7b a not \nin b \x7d\x7d\n".toList).toOption.map
        (fun t => (t.stream.lexemes, t.directives)) =
      some ([(.variableStart, "\x7b\x7b".toList), (.spaces, " ".toList), (.name, "a".toList),
        (.spaces, " ".toList), (.operator, "not \nin".toList), (.spaces, " ".toList),
        (.name, "b".toList), (.spaces, " ".toList), (.variableEnd, "\x7d\x7d".toList),
        (.lineBreak, "\n".toList), (.eof, [])], []) := by
  decide +kernel

end TwigStyle
