import TwigStyle.Proofs.Enclosed
import TwigStyle.Proofs.Mended

/-!
# What is wanted between two tokens

What the rules want of the gap between two tokens depends on the lexemes around it and not on the layout
(`Ruleset.mem_widths_congr`).  A gap without a line break is right if it has all the wanted widths
(`Spacing.accepts_eq_false_iff`), so every proposal of a spacing is about a gap that does not have one of
them (`Ruleset.Respaces`).  What the other rules propose is about lines (`Ruleset.Realigns`), and there
are no proposals besides these two kinds (`Ruleset.proposed_iff`).
-/

namespace TwigStyle

variable {table : OperatorTable} {source : List Char} {t : Template}

/-! ### Streams of templates -/

theorem Token.kind_of_solid {t : Token} (h : Lexeme.isLayout t.lexeme = false) :
    t.kind ∉ TokenKind.layout := by
  simpa [Lexeme.isLayout, Token.lexeme] using h

namespace TokenStream

variable {s : TokenStream}

/-- What the stream of a template is like. -/
structure Regular (s : TokenStream) : Prop where
  genuine : s.Genuine
  ended : s.Ended
  value : ∀ l ∈ s.lexemes, l.1 ≠ .eof → l.2 ≠ []
  comment : ∀ {k a b}, s.get? k = some a → s.get? (k + 1) = some b →
    (a.kind ∈ TokenKind.commentOpen ↔ b.kind ∈ TokenKind.commentNext)
  ending : ∀ {i j x y}, s.Neighbours i j x y → y.kind = .eof → x.kind ∈ TokenKind.endings
  square : ∀ {i}, i < s.size → Spacing.inSquareBrackets s i = inSquare (s.before i)
  unsplit : Unsplit s.lexemes []

theorem get?_split_pair {k : Nat} {a b : Token} (ha : s.get? k = some a)
    (hb : s.get? (k + 1) = some b) : ∃ us vs, s.tokens.toList = us ++ a :: b :: vs := by
  obtain ⟨us, vs, hs, rfl⟩ := get?_split ha
  rw [get?, ← Array.getElem?_toList, hs, List.getElem?_append_right (by omega),
    Nat.add_sub_cancel_left, List.getElem?_cons_succ] at hb
  cases vs with
  | nil => cases hb
  | cons c vs =>
    obtain rfl : c = b := Option.some.inj hb
    exact ⟨us, vs, hs⟩

end TokenStream

section

variable (h : tokenize table source = .ok t)
include h

theorem tokenize_unsplit : Unsplit t.stream.lexemes [] := by
  obtain ⟨s, hrun, -, rfl⟩ := tokenize_eq_ok_iff.1 h
  change Unsplit (s.emit .eof []).emitted []
  rw [Lexer.emitted_emit, unsplit_append]
  exact ⟨Lexer.run_unsplit hrun trivial, nofun, trivial⟩

theorem tokenize_comment {k : Nat} {a b : Token} (ha : t.stream.get? k = some a)
    (hb : t.stream.get? (k + 1) = some b) :
    a.kind ∈ TokenKind.commentOpen ↔ b.kind ∈ TokenKind.commentNext := by
  obtain ⟨ts, eof, hts, hnested, heof, -⟩ := tokenize_nested h
  have hsorted := hnested.sorted nofun
  obtain ⟨us, vs, hsplit⟩ := TokenStream.get?_split_pair ha hb
  rw [hts] at hsplit
  rcases Nested.split_append hsplit with ⟨w, rfl, hw⟩ | ⟨w, -, hw⟩
  · cases w with
    | nil =>
      -- The second token is the end of the file.
      obtain ⟨rfl, -⟩ := List.cons.inj hw
      have hlast := hsorted.last a (by simp)
      rw [heof]
      exact ⟨fun h => absurd h hlast, fun h => absurd h (by decide)⟩
    | cons c w =>
      obtain ⟨rfl, -⟩ := List.cons.inj hw
      exact hsorted.next us a b w rfl
  · have := congrArg List.length hw
    simp at this
    omega

theorem tokenize_ending (hended : t.stream.Ended) {i j : Nat} {x y : Token}
    (hn : t.stream.Neighbours i j x y) (hy : y.kind = .eof) : x.kind ∈ TokenKind.endings := by
  obtain ⟨ts, eof, hts, hnested, -, -⟩ := tokenize_nested h
  have hj : j + 1 = t.stream.size :=
    (hended j).1 (TokenStream.kindIn_iff.2 ⟨y, hn.right, by simp [hy]⟩)
  obtain ⟨us, vs, hsplit, rfl⟩ := TokenStream.get?_split hn.left
  have hsize : t.stream.size = us.length + 1 + vs.length := by
    rw [TokenStream.size, ← Array.length_toList, hsplit]
    simp
    omega
  have hlt := hn.lt
  rw [hts] at hsplit
  rcases Nested.split_append hsplit with ⟨w, rfl, rfl⟩ | ⟨w, -, hw⟩
  · refine hnested.last rfl rfl (Token.kind_of_solid hn.solidLeft) ?_
    intro u hu
    obtain ⟨k, hk⟩ := List.getElem?_of_mem hu
    have hklt := (List.getElem?_eq_some_iff.1 hk).1
    have hlayout := hn.between (us.length + 1 + k) (by omega) (by
      simp only [List.length_append, List.length_singleton] at hsize
      omega)
    obtain ⟨u', hu', hkind⟩ := TokenStream.kindIn_iff.1 hlayout
    rw [TokenStream.get?, ← Array.getElem?_toList, hts, List.append_assoc, Nat.add_assoc,
      List.getElem?_append_right (by omega), Nat.add_sub_cancel_left, Nat.add_comm 1,
      List.cons_append, List.getElem?_cons_succ, List.getElem?_append_left hklt, hk] at hu'
    rwa [Option.some.inj hu']
  · have := congrArg List.length hw
    simp at this
    omega

theorem tokenize_regular : t.stream.Regular := by
  obtain ⟨ls, hls, -, hsolid⟩ := tokenize_lexemes h
  have hended := TokenStream.ended_of_lexemes hls hsolid
  refine ⟨tokenize_gaps h, hended, ?_, tokenize_comment h, tokenize_ending h hended,
    inSquareBrackets_eq h, tokenize_unsplit h⟩
  intro l hl hne
  rw [hls] at hl
  rcases List.mem_append.1 hl with hl | hl
  · exact (hsolid l hl).2
  · rw [List.mem_singleton.1 hl] at hne
    exact absurd rfl hne

end

/-! ### Gaps -/

/-- The index of the token that has a gap on a side. -/
def Spacing.Side.token : Spacing.Side → (left right : Nat) → Nat
  | .before, _, right => right
  | .after, left, _ => left

namespace TokenStream

variable {s : TokenStream} {i j k : Nat} {x y t : Token} {side : Spacing.Side}
  {kinds : List TokenKind}

theorem get?_of_kindIn {a : Token} (ha : s.get? k = some a) (h : s.kindIn k kinds = true) :
    a.kind ∈ kinds := by
  rw [kindIn_of_get? ha] at h
  exact List.contains_iff_mem.1 h

theorem Regular.genuine_of_get? (hs : s.Regular) (ht : s.get? k = some t) : t.lexeme.Genuine :=
  hs.genuine _ (lexeme_mem ht)

theorem Regular.value_ne_nil (hs : s.Regular) (ht : s.get? k = some t)
    (hkinds : kinds ⊆ TokenKind.layout) (h : s.kindIn k kinds = true) : t.value ≠ [] := by
  refine hs.value t.lexeme (lexeme_mem ht) fun heof => ?_
  have hkind := hkinds (get?_of_kindIn ht h)
  rw [show t.kind = .eof from heof] at hkind
  exact absurd hkind (by decide)

theorem Regular.gapKinds (hs : s.Regular) (hn : s.Neighbours i j x y)
    (h : x.kind ∉ TokenKind.commentOpen ∨ y.kind ∉ TokenKind.commentNext) (hik : i < k)
    (hkj : k < j) : s.kindIn k Spacing.gapKinds = true := by
  have hlayout : ∀ kind ∈ TokenKind.layout,
      (kind ∈ TokenKind.commentOpen ↔ kind ∈ TokenKind.commentNext) ∧
        (kind ∉ TokenKind.commentOpen → kind ∈ Spacing.gapKinds) := by decide
  have hsize := get?_lt hn.right
  rcases h with hx | hy
  · have hup : ∀ n a, i + n < j → s.get? (i + n) = some a → a.kind ∉ TokenKind.commentOpen := by
      intro n
      induction n with
      | zero =>
        intro a _ ha
        obtain rfl : x = a := Option.some.inj (hn.left.symm.trans ha)
        exact hx
      | succ n ih =>
        intro a hlt ha
        obtain ⟨b, hb⟩ := exists_get? (s := s) (i := i + n) (by omega)
        have hkind := get?_of_kindIn ha (hn.between _ (by omega) hlt)
        rw [(hlayout _ hkind).1, ← hs.comment hb ha]
        exact ih b (by omega) hb
    obtain ⟨a, ha⟩ := exists_get? (s := s) (i := k) (by omega)
    have hkind := get?_of_kindIn ha (hn.between k hik hkj)
    have hopen := hup (k - i) a (by omega) (by rwa [Nat.add_sub_cancel' (Nat.le_of_lt hik)])
    exact kindIn_iff.2 ⟨a, ha, (hlayout _ hkind).2 hopen⟩
  · have hdown : ∀ n k a, k + n = j → i < k → s.get? k = some a →
        a.kind ∉ TokenKind.commentNext := by
      intro n
      induction n with
      | zero =>
        rintro k a rfl _ ha
        obtain rfl : y = a := Option.some.inj (hn.right.symm.trans ha)
        exact hy
      | succ n ih =>
        intro k a hk hik ha
        obtain ⟨b, hb⟩ := exists_get? (s := s) (i := k + 1) (by omega)
        have hkind := get?_of_kindIn ha (hn.between _ hik (by omega))
        rw [← (hlayout _ hkind).1, hs.comment ha hb]
        exact ih (k + 1) b (by omega) (by omega) hb
    obtain ⟨a, ha⟩ := exists_get? (s := s) (i := k) (by omega)
    have hkind := get?_of_kindIn ha (hn.between k hik hkj)
    have hnext := hdown (j - k) k a (by omega) hik ha
    rw [← (hlayout _ hkind).1] at hnext
    exact kindIn_iff.2 ⟨a, ha, (hlayout _ hkind).2 hnext⟩

theorem Neighbours.notMem_gapKinds (hn : s.Neighbours i j x y) :
    x.kind ∉ Spacing.gapKinds ∧ y.kind ∉ Spacing.gapKinds := by
  have hsub : Spacing.gapKinds ⊆ TokenKind.layout := by decide
  exact ⟨fun h => Token.kind_of_solid hn.solidLeft (hsub h),
    fun h => Token.kind_of_solid hn.solidRight (hsub h)⟩

theorem Regular.row_of_kind (hs : s.Regular) (hn : s.Neighbours i j x y)
    (ht : s.get? (side.token i j) = some t) (hkind : t.kind ∈ side.kinds) :
    ∀ k, i < k → k < j → s.kindIn k Spacing.gapKinds = true := by
  cases side with
  | before =>
    have hcode : ∀ kind ∈ Spacing.Side.kinds .before, kind ∉ TokenKind.commentNext := by decide
    obtain rfl : y = t := Option.some.inj (hn.right.symm.trans ht)
    exact fun k => hs.gapKinds hn (.inr (hcode _ hkind))
  | after =>
    have hcode : ∀ kind ∈ Spacing.Side.kinds .after, kind ∉ TokenKind.commentOpen := by decide
    obtain rfl : x = t := Option.some.inj (hn.left.symm.trans ht)
    exact fun k => hs.gapKinds hn (.inl (hcode _ hkind))

theorem Regular.gap?_eq (hs : s.Regular) (hn : s.Neighbours i j x y)
    (ht : s.get? (side.token i j) = some t) (hkind : t.kind ∈ side.kinds) :
    Spacing.gap? s (side.token i j) side = some ⟨i + 1, j⟩ := by
  have hrow := hs.row_of_kind hn ht hkind
  cases side with
  | before =>
    have hprevious : s.previousOutside Spacing.gapKinds j = some i :=
      (previousOutside_eq_some_iff (Nat.le_of_lt (get?_lt hn.right))).2
        ⟨hn.lt, ⟨x, hn.left, hn.notMem_gapKinds.1⟩, hrow⟩
    exact congrArg (Option.map _) hprevious
  | after =>
    have hnext : s.nextOutside Spacing.gapKinds (i + 1) = some j :=
      nextOutside_eq_some_iff.2 ⟨hn.lt, ⟨y, hn.right, hn.notMem_gapKinds.2⟩, hrow⟩
    exact congrArg (Option.map _) hnext

theorem Regular.exists_neighbours (hs : s.Regular) {g : Spacing.Gap} (ht : s.get? i = some t)
    (hkind : t.kind ∈ side.kinds) (hgap : Spacing.gap? s i side = some g) :
    ∃ k l x y, s.Neighbours k l x y ∧ i = side.token k l ∧ g = ⟨k + 1, l⟩ := by
  have hi := get?_lt ht
  have hgaps : ∀ kind ∈ Spacing.gapKinds, kind ∉ TokenKind.commentOpen ∧
      kind ∉ TokenKind.commentNext ∧ kind ∈ TokenKind.layout := by decide
  have hside : ∀ kind ∈ side.kinds, TokenKind.layout.contains kind = false := by
    cases side <;> decide
  have hlayout : ∀ kind ∈ TokenKind.layout, kind ∉ Spacing.gapKinds →
      kind ∈ TokenKind.commentOpen ∧ kind ∈ TokenKind.commentNext := by decide
  cases side with
  | before =>
    have hcode : ∀ kind ∈ Spacing.Side.kinds .before, kind ∉ TokenKind.commentNext := by decide
    obtain ⟨k, hk, rfl⟩ := Option.map_eq_some_iff.1 hgap
    obtain ⟨hlt, ⟨x, hx, hout⟩, hrow⟩ := (previousOutside_eq_some_iff (Nat.le_of_lt hi)).1 hk
    refine ⟨k, i, x, t, ⟨hlt, hx, ht, ?_, hside t.kind hkind, ?_⟩, rfl, rfl⟩
    · rw [Bool.eq_false_iff]
      intro hin
      -- Layout of a comment would go on up to the token.
      obtain ⟨b, hb⟩ := exists_get? (s := s) (i := k + 1) (by omega)
      have hnext := (hs.comment hx hb).1 (hlayout _ (List.contains_iff_mem.1 hin) hout).1
      rcases Nat.eq_or_lt_of_le hlt with heq | hlt
      · obtain rfl : t = b := Option.some.inj (ht.symm.trans (heq ▸ hb))
        exact hcode _ hkind hnext
      · exact (hgaps _ (get?_of_kindIn hb (hrow _ (by omega) hlt))).2.1 hnext
    · intro l hkl hli
      obtain ⟨b, hb⟩ := exists_get? (s := s) (i := l) (by omega)
      exact kindIn_iff.2 ⟨b, hb, (hgaps _ (get?_of_kindIn hb (hrow l hkl hli))).2.2⟩
  | after =>
    have hcode : ∀ kind ∈ Spacing.Side.kinds .after, kind ∉ TokenKind.commentOpen := by decide
    obtain ⟨l, hl, rfl⟩ := Option.map_eq_some_iff.1 hgap
    obtain ⟨hlt, ⟨y, hy, hout⟩, hrow⟩ := nextOutside_eq_some_iff.1 hl
    have hl := get?_lt hy
    refine ⟨i, l, t, y, ⟨hlt, ht, hy, hside t.kind hkind, ?_, ?_⟩, rfl, rfl⟩
    · rw [Bool.eq_false_iff]
      intro hin
      obtain ⟨m, rfl⟩ : ∃ m, l = m + 1 := ⟨l - 1, by omega⟩
      obtain ⟨b, hb⟩ := exists_get? (s := s) (i := m) (by omega)
      have hopen := (hs.comment hb hy).2 (hlayout _ (List.contains_iff_mem.1 hin) hout).2
      rcases Nat.eq_or_lt_of_le hlt with heq | hlt
      · obtain rfl : i = m := by omega
        obtain rfl : t = b := Option.some.inj (ht.symm.trans hb)
        exact hcode _ hkind hopen
      · exact (hgaps _ (get?_of_kindIn hb (hrow m (by omega) (by omega)))).1 hopen
    · intro k hik hkl
      obtain ⟨b, hb⟩ := exists_get? (s := s) (i := k) (by omega)
      exact kindIn_iff.2 ⟨b, hb, (hgaps _ (get?_of_kindIn hb (hrow k hik hkl))).2.2⟩

end TokenStream

/-! ### The text of a gap -/

namespace Token

variable {ts : List Token}

/-- A row of spaces, a row of tabs or a line break. -/
inductive Lays : Token → Prop
  | spaces {t : Token} (hkind : t.kind = .spaces) (hvalue : ∀ c ∈ t.value, c = ' ') : Lays t
  | tabs {t : Token} (hkind : t.kind = .tabs) (hvalue : ∀ c ∈ t.value, c = '\t') : Lays t
  | lineBreak {t : Token} (hkind : t.kind = .lineBreak)
      (hvalue : t.value ∈ [['\n'], ['\r'], ['\r', '\n']]) : Lays t

theorem lays_of_genuine {t : Token} (hgenuine : t.lexeme.Genuine)
    (hkind : t.kind ∈ Spacing.gapKinds) : t.Lays := by
  have hkinds : ∀ kind ∈ Spacing.gapKinds, kind ≠ .commentSpaces ∧ kind ≠ .commentTabs ∧
      (kind ∈ TokenKind.breaks → kind = .lineBreak) ∧ kind ∈ TokenKind.layout := by decide
  obtain ⟨hspaces, htabs, hbreak, hlayout⟩ := hkinds _ hkind
  rcases hgenuine.cases hlayout with ⟨hcls, hrun⟩ | ⟨hcls, hrun⟩ | ⟨hcls, hrun⟩
  · exact .spaces (hcls.resolve_right hspaces) hrun
  · exact .tabs (hcls.resolve_right htabs) hrun
  · exact .lineBreak (hbreak hcls) hrun

theorem any_lineBreak (hts : ∀ t ∈ ts, t.Lays) :
    ts.any (·.kind == .lineBreak) = hasBreak (spell (ts.map Token.lexeme)) := by
  induction ts with
  | nil => rfl
  | cons t ts ih =>
    have hfirst : (t.kind == .lineBreak) = hasBreak t.value := by
      rcases hts t List.mem_cons_self with ⟨hkind, hvalue⟩ | ⟨hkind, hvalue⟩ | ⟨hkind, hvalue⟩
      · rw [hkind, hasBreak_eq_false hvalue rfl]
        rfl
      · rw [hkind, hasBreak_eq_false hvalue rfl]
        rfl
      · simp only [List.mem_cons, List.not_mem_nil, or_false] at hvalue
        rcases hvalue with hvalue | hvalue | hvalue <;> rw [hkind, hvalue] <;> rfl
    rw [List.any_cons, List.map_cons, spell_cons, hasBreak_append,
      ih fun u hu => hts u (List.mem_cons_of_mem t hu), hfirst]
    rfl

theorem any_tabs (hts : ∀ t ∈ ts, t.Lays) (hvalues : ∀ t ∈ ts, t.value ≠ [])
    (hno : ts.any (·.kind == .lineBreak) = false) :
    ts.any (·.kind == .tabs) = false ↔ ∀ c ∈ spell (ts.map Token.lexeme), c = ' ' := by
  induction ts with
  | nil => simp
  | cons t ts ih =>
    rw [List.any_cons, Bool.or_eq_false_iff] at hno
    rw [List.any_cons, Bool.or_eq_false_iff, List.map_cons, spell_cons,
      ih (fun u hu => hts u (List.mem_cons_of_mem t hu))
        (fun u hu => hvalues u (List.mem_cons_of_mem t hu)) hno.2, List.forall_mem_append]
    refine and_congr_left fun _ => ?_
    change _ ↔ ∀ c ∈ t.value, c = ' '
    rcases hts t List.mem_cons_self with ⟨hkind, hvalue⟩ | ⟨hkind, hvalue⟩ | ⟨hkind, -⟩
    · exact ⟨fun _ => hvalue, fun _ => by rw [hkind]; rfl⟩
    · obtain ⟨c, rest, hcons⟩ := List.exists_cons_of_ne_nil (hvalues t List.mem_cons_self)
      have hc : c ∈ t.value := by rw [hcons]; exact List.mem_cons_self
      refine ⟨fun h => ?_, fun h => ?_⟩
      · rw [hkind] at h
        cases h
      · have := h c hc
        rw [hvalue c hc] at this
        cases this
    · rw [hkind] at hno
      cases hno.1

theorem length_spell (ts : List Token) :
    ts.foldr (fun t n => t.value.length + n) 0 = (spell (ts.map Token.lexeme)).length := by
  induction ts with
  | nil => rfl
  | cons t ts ih =>
    rw [List.foldr_cons, ih, List.map_cons, spell_cons, List.length_append]
    rfl

end Token

namespace TokenStream

variable {s : TokenStream} {i j : Nat}

/-- The layout between two tokens. -/
def gapText (s : TokenStream) (i j : Nat) : List Char := spell ((s.between i j).map Token.lexeme)

theorem mem_between {t : Token} : t ∈ s.between i j ↔ ∃ k, i < k ∧ k < j ∧ s.get? k = some t := by
  unfold between get?
  rw [List.mem_iff_getElem?]
  constructor
  · rintro ⟨n, hn⟩
    rw [List.getElem?_drop] at hn
    have hlt := (List.getElem?_eq_some_iff.1 hn).1
    rw [List.length_take] at hlt
    rw [List.getElem?_take_of_lt (by omega), Array.getElem?_toList] at hn
    exact ⟨i + 1 + n, by omega, by omega, hn⟩
  · rintro ⟨k, hik, hkj, hk⟩
    refine ⟨k - (i + 1), ?_⟩
    rw [List.getElem?_drop, Nat.add_sub_cancel' hik, List.getElem?_take_of_lt hkj,
      Array.getElem?_toList, hk]

theorem tokens_eq_between (s : TokenStream) (i j : Nat) :
    Spacing.Gap.tokens s ⟨i + 1, j⟩ = s.between i j := by
  rw [Spacing.Gap.tokens, Array.toList_extract, List.extract_eq_take_drop, between, List.drop_take]

end TokenStream

namespace Spacing

variable {s : TokenStream} {sp : Spacing} {i j w : Nat}

theorem accepts_eq_false_iff (hs : s.Regular)
    (hrow : ∀ k, i < k → k < j → s.kindIn k gapKinds = true) :
    sp.accepts s ⟨i + 1, j⟩ w = false ↔
      hasBreak (s.gapText i j) = true ∧ sp.acceptsLineBreak = false ∨
        hasBreak (s.gapText i j) = false ∧ s.gapText i j ≠ List.replicate w ' ' := by
  have htokens : ∀ t ∈ s.between i j, t.Lays ∧ t.value ≠ [] := by
    intro t ht
    obtain ⟨k, hik, hkj, hk⟩ := TokenStream.mem_between.1 ht
    exact ⟨Token.lays_of_genuine (hs.genuine_of_get? hk) (TokenStream.get?_of_kindIn hk
      (hrow k hik hkj)), hs.value_ne_nil hk (by decide) (hrow k hik hkj)⟩
  have hlays := fun t ht => (htokens t ht).1
  unfold accepts Gap.has Gap.width TokenStream.gapText
  rw [TokenStream.tokens_eq_between, Token.any_lineBreak hlays]
  cases hno : hasBreak (spell ((s.between i j).map Token.lexeme)) with
  | true => simp
  | false =>
    rw [← Token.any_lineBreak hlays] at hno
    have hall : (s.between i j).filter (·.kind != .lineBreak) = s.between i j := by
      rw [List.filter_eq_self]
      intro t ht
      have := List.any_eq_false.1 hno t ht
      simpa using this
    rw [hall, Token.length_spell, Ne, List.eq_replicate_iff,
      ← Token.any_tabs hlays (fun t ht => (htokens t ht).2) hno]
    simp

end Spacing

/-! ### Widths -/

namespace TokenStream

variable {s : TokenStream} {i j : Nat} {x y : Token}

theorem Neighbours.before_right (hn : s.Neighbours i j x y) :
    s.before j = x.lexeme :: s.before i := by
  have hsize := get?_lt hn.right
  have hup : ∀ n, i + 1 + n ≤ j → s.before (i + 1 + n) = x.lexeme :: s.before i := by
    intro n
    induction n with
    | zero =>
      intro _
      rw [Nat.add_zero, before_succ hn.left, hn.solidLeft]
      rfl
    | succ n ih =>
      intro hle
      obtain ⟨a, ha⟩ := exists_get? (s := s) (i := i + 1 + n) (by omega)
      have hlayout : Lexeme.isLayout a.lexeme = true :=
        isLayout_of_kindIn ha (List.Subset.refl _) (hn.between _ (by omega) (by omega))
      rw [← Nat.add_assoc, before_succ ha, if_pos hlayout, ih (by omega)]
  have hlt := hn.lt
  have hj := hup (j - (i + 1)) (by omega)
  rwa [Nat.add_sub_cancel' hlt] at hj

theorem Neighbours.nextOutside (hn : s.Neighbours i j x y) :
    s.nextOutside TokenKind.layout (i + 1) = some j :=
  nextOutside_eq_some_iff.2 ⟨hn.lt, ⟨y, hn.right, Token.kind_of_solid hn.solidRight⟩, hn.between⟩

theorem Neighbours.previousOutside (hn : s.Neighbours i j x y) :
    s.previousOutside TokenKind.layout j = some i :=
  (previousOutside_eq_some_iff (Nat.le_of_lt (get?_lt hn.right))).2
    ⟨hn.lt, ⟨x, hn.left, Token.kind_of_solid hn.solidLeft⟩, hn.between⟩

end TokenStream

section Congr

variable {s s' : TokenStream} {i j i' j' : Nat} {x y x' y' : Token} {sp : Spacing} {r : Rule}

/-- What a token wants of a gap depends on its lexeme and those around and before it. -/
theorem Spacing.wanted_congr (hsp : r.spacing? = some sp) (hs : s.Regular) (hs' : s'.Regular)
    (hn : s.Neighbours i j x y) (hn' : s'.Neighbours i' j' x' y') (hx : x'.lexeme = x.lexeme)
    (hy : y'.lexeme = y.lexeme) (hbefore : s'.before i' = s.before i) (side : Side) :
    sp.wanted? s' (side.token i' j') side = sp.wanted? s (side.token i j) side := by
  obtain ⟨hxkind, hxvalue⟩ := Prod.mk.inj hx
  obtain ⟨hykind, hyvalue⟩ := Prod.mk.inj hy
  have hi := TokenStream.get?_lt hn.left
  have hi' := TokenStream.get?_lt hn'.left
  have hj := Nat.le_of_lt (TokenStream.get?_lt hn.right)
  have hj' := Nat.le_of_lt (TokenStream.get?_lt hn'.right)
  have hbefore' : s'.before j' = s.before j := by
    rw [hn.before_right, hn'.before_right, hx, hbefore]
  cases r with
  | delimiterSpacing =>
    cases hsp
    cases side with
    | before | after =>
      simp only [wanted?, Side.token, delimiters, delimiterSpace, hn.nextOutside, hn'.nextOutside,
        hn.previousOutside, hn'.previousOutside, TokenStream.kindIn_of_get? hn.left,
        TokenStream.kindIn_of_get? hn'.left, TokenStream.kindIn_of_get? hn.right,
        TokenStream.kindIn_of_get? hn'.right, hxkind, hykind]
  | operatorSpacing =>
    cases hsp
    cases side with
    | before =>
      simp only [wanted?, Side.token, operators, hn.right, hn'.right, hykind, Token.valueText, hyvalue,
        isUnary_eq hj, isUnary_eq hj', hbefore']
    | after =>
      simp only [wanted?, Side.token, operators, hn.left, hn'.left, hxkind, Token.valueText, hxvalue,
        isUnary_eq (Nat.le_of_lt hi), isUnary_eq (Nat.le_of_lt hi'), hbefore]
  | punctuationSpacing =>
    cases hsp
    cases side with
    | before =>
      simp only [wanted?, Side.token, punctuation, hn.right, hn'.right, hykind, Token.valueText, hyvalue]
      rfl
    | after =>
      simp only [wanted?, Side.token, punctuation, hn.left, hn'.left, hxkind, Token.valueText, hxvalue,
        hs.square hi, hs'.square hi', hbefore]
  | _ => cases hsp

end Congr

namespace Ruleset

variable {rs : Ruleset} {s s' : TokenStream} {i j i' j' w : Nat} {x y x' y' : Token}
  {side : Spacing.Side}

/-- The spacings that the rules enforce. -/
def spacings (rs : Ruleset) : List Spacing := rs.rules.filterMap (·.base.spacing?)

/-- The widths that are wanted of the gap on a side of a token. -/
def widths (rs : Ruleset) (s : TokenStream) (i : Nat) (side : Spacing.Side) : List Nat :=
  rs.spacings.filterMap (·.wanted? s i side)

/-- The widths that are wanted of the gap between two tokens. -/
def wants (rs : Ruleset) (s : TokenStream) (i j : Nat) : List Nat :=
  rs.widths s i .after ++ rs.widths s j .before

theorem mem_spacings {sp : Spacing} :
    sp ∈ rs.spacings ↔ ∃ r ∈ rs.rules, r.base.spacing? = some sp := List.mem_filterMap

theorem mem_widths : w ∈ rs.widths s i side ↔
    ∃ r ∈ rs.rules, ∃ sp, r.base.spacing? = some sp ∧ sp.wanted? s i side = some w := by
  simp only [widths, List.mem_filterMap, mem_spacings]
  constructor
  · rintro ⟨sp, ⟨r, hr, hsp⟩, hw⟩
    exact ⟨r, hr, sp, hsp, hw⟩
  · rintro ⟨r, hr, sp, hsp, hw⟩
    exact ⟨sp, ⟨r, hr, hsp⟩, hw⟩

theorem mem_wants : w ∈ rs.wants s i j ↔ ∃ side, w ∈ rs.widths s (side.token i j) side := by
  rw [wants, List.mem_append]
  constructor
  · rintro (h | h)
    · exact ⟨.after, h⟩
    · exact ⟨.before, h⟩
  · rintro ⟨_ | _, h⟩
    · exact .inr h
    · exact .inl h

theorem mem_widths_congr (hs : s.Regular) (hs' : s'.Regular) (hn : s.Neighbours i j x y)
    (hn' : s'.Neighbours i' j' x' y') (hx : x'.lexeme = x.lexeme) (hy : y'.lexeme = y.lexeme)
    (hbefore : s'.before i' = s.before i) (side : Spacing.Side) :
    w ∈ rs.widths s' (side.token i' j') side ↔ w ∈ rs.widths s (side.token i j) side := by
  have hsame : ∀ {r : Rule} {sp : Spacing}, r.spacing? = some sp →
      sp.wanted? s' (side.token i' j') side = sp.wanted? s (side.token i j) side :=
    fun hsp => Spacing.wanted_congr hsp hs hs' hn hn' hx hy hbefore side
  rw [mem_widths, mem_widths]
  constructor
  · rintro ⟨r, hr, sp, hsp, hw⟩
    exact ⟨r, hr, sp, hsp, hsame hsp ▸ hw⟩
  · rintro ⟨r, hr, sp, hsp, hw⟩
    exact ⟨r, hr, sp, hsp, (hsame hsp).trans hw⟩

theorem kind_of_mem_widths {t : Token} (ht : s.get? i = some t) (hw : w ∈ rs.widths s i side) :
    t.kind ∈ side.kinds := by
  obtain ⟨r, -, sp, hsp, hw⟩ := mem_widths.1 hw
  exact Spacing.kind_of_wanted hsp ht hw

theorem wants_of_eof (hs : s.Regular) (hn : s.Neighbours i j x y) (hy : y.kind = .eof) :
    rs.wants s i j = [] := by
  have hkinds : ∀ kind ∈ TokenKind.endings, kind ∉ Spacing.Side.kinds .after := by decide
  rw [List.eq_nil_iff_forall_not_mem]
  intro w hw
  obtain ⟨_ | _, hw⟩ := mem_wants.1 hw
  · have hkind := kind_of_mem_widths hn.right hw
    rw [hy] at hkind
    exact absurd hkind (by decide)
  · exact hkinds _ (hs.ending hn hy) (kind_of_mem_widths hn.left hw)

/-! ### Proposals -/

/-- A spacing proposes a change: a gap without a line break does not have a width that is wanted. -/
inductive Respaces (rs : Ruleset) (s : TokenStream) : Change → Prop
  | fill {i j w : Nat} {x y : Token} (hn : s.Neighbours i j x y) (hlt : i + 1 < j)
      (hw : w ∈ rs.wants s i j) (hbreak : hasBreak (s.gapText i j) = false)
      (hbad : s.gapText i j ≠ List.replicate w ' ') :
    Respaces rs s (.fill (i + 1) j (List.replicate w ' '))
  | append {i w : Nat} {x y : Token} (hn : s.Neighbours i (i + 1) x y)
      (hw : w ∈ rs.widths s i .after) (hne : w ≠ 0) :
    Respaces rs s (.append i (List.replicate w ' '))
  | prepend {i w : Nat} {x y : Token} (hn : s.Neighbours i (i + 1) x y)
      (hw : w ∈ rs.widths s (i + 1) .before) (hne : w ≠ 0) :
    Respaces rs s (.prepend (i + 1) (List.replicate w ' '))

/-- The rule is in the set, limited to some paths or not. -/
def Has (rs : Ruleset) (r : Rule) : Prop := ∃ r' ∈ rs.rules, r'.base = r

/-- A rule about lines proposes a change. -/
inductive Realigns (rs : Ruleset) (s : TokenStream) (lineBreak : List Char) : Change → Prop
  | trailing {i : Nat} (hr : rs.Has .trailingSpace) (hend : s.kindIn i Layout.lineEnds = true)
      (hstart : Layout.blanksStart s i < i) :
    Realigns rs s lineBreak (.fill (Layout.blanksStart s i) i [])
  | onlyBlank {i : Nat} (hr : rs.Has .blankEof) (hi : 0 < i) (hend : s.kindIn i [.eof] = true)
      (hnone : s.previousOutside Layout.blankLines i = none) :
    Realigns rs s lineBreak (.fill 0 i [])
  | endFill {i last : Nat} (hr : rs.Has .blankEof) (hend : s.kindIn i [.eof] = true)
      (hlast : s.previousOutside Layout.blankLines i = some last) (hlt : last + 1 < i)
      (hbad : Layout.lineBreaks s (last + 1) i ≠ 1) :
    Realigns rs s lineBreak (.fill (last + 1) i lineBreak)
  | endAppend {last : Nat} (hr : rs.Has .blankEof) (hend : s.kindIn (last + 1) [.eof] = true)
      (hlast : s.previousOutside Layout.blankLines (last + 1) = some last) :
    Realigns rs s lineBreak (.append last lineBreak)
  | tabs {i width : Nat} {token : Token} (hr : rs.Has (.indent width))
      (hget : s.get? i = some token) (hkind : token.kind = .tabs ∨ token.kind = .commentTabs)
      (hindent : Layout.inIndentation s i = true) :
    Realigns rs s lineBreak (.fill i (i + 1) (List.replicate (width * token.value.length) ' '))

end Ruleset

theorem proposes_base_iff {s : TokenStream} {lineBreak : List Char} {r : Rule} {ch : Change} :
    Proposes s lineBreak r.base ch ↔ Proposes s lineBreak r ch := by
  induction r with
  | onPaths inner globs ih =>
    refine ih.trans ⟨.onPaths, fun h => ?_⟩
    cases h with
    | gap hsp => cases hsp
    | onPaths h => exact h
  | _ => exact Iff.rfl

theorem TokenStream.gapText_self (s : TokenStream) (i : Nat) : s.gapText i (i + 1) = [] := by
  have hnil : s.between i (i + 1) = [] := by
    rw [List.eq_nil_iff_forall_not_mem]
    intro t ht
    obtain ⟨k, hik, hki, -⟩ := mem_between.1 ht
    omega
  rw [gapText, hnil]
  rfl

namespace Ruleset

variable {rs : Ruleset} {s : TokenStream} {lineBreak : List Char} {ch : Change} {r : Rule}

theorem proposes_gap_iff {sp : Spacing} (hsp : r.spacing? = some sp) :
    Proposes s lineBreak r ch ↔ ∃ i side w g, i < s.size ∧ sp.wanted? s i side = some w ∧
      Spacing.gap? s i side = some g ∧ sp.accepts s g w = false ∧
      ch = g.change i side (List.replicate w ' ') := by
  constructor
  · intro h
    cases h with
    | gap hsp' hi hwanted hgap hbad =>
      obtain rfl := Option.some.inj (hsp.symm.trans hsp')
      exact ⟨_, _, _, _, hi, hwanted, hgap, hbad, rfl⟩
    | trailing | onlyBlank | lineEnd | tabs | onPaths => cases hsp
  · rintro ⟨i, side, w, g, hi, hwanted, hgap, hbad, rfl⟩
    exact .gap hsp hi hwanted hgap hbad

theorem respaces_of_bad {i j w : Nat} {x y : Token} {side : Spacing.Side}
    (hn : s.Neighbours i j x y) (hw : w ∈ rs.widths s (side.token i j) side)
    (hbreak : hasBreak (s.gapText i j) = false) (hbad : s.gapText i j ≠ List.replicate w ' ') :
    rs.Respaces s
      (Spacing.Gap.change ⟨i + 1, j⟩ (side.token i j) side (List.replicate w ' ')) := by
  unfold Spacing.Gap.change
  split
  · rename_i hlt
    exact .fill hn hlt (mem_wants.2 ⟨side, hw⟩) hbreak hbad
  · rename_i hge
    have hlt := hn.lt
    obtain rfl : j = i + 1 := by simp only at hge; omega
    have hne : w ≠ 0 := by
      rintro rfl
      exact hbad (s.gapText_self i)
    cases side with
    | before => exact .prepend hn hw hne
    | after => exact .append hn hw hne

theorem Respaces.exists_bad (h : rs.Respaces s ch) :
    ∃ i j x y side w, s.Neighbours i j x y ∧ w ∈ rs.widths s (side.token i j) side ∧
      hasBreak (s.gapText i j) = false ∧ s.gapText i j ≠ List.replicate w ' ' ∧
      ch = Spacing.Gap.change ⟨i + 1, j⟩ (side.token i j) side (List.replicate w ' ') := by
  have hempty : ∀ {i w : Nat}, w ≠ 0 → hasBreak (s.gapText i (i + 1)) = false ∧
      s.gapText i (i + 1) ≠ List.replicate w ' ' := by
    intro i w hw
    rw [s.gapText_self]
    refine ⟨rfl, fun h => hw ?_⟩
    simpa using congrArg List.length h.symm
  cases h with
  | fill hn hlt hw hbreak hbad =>
    obtain ⟨side, hw⟩ := mem_wants.1 hw
    exact ⟨_, _, _, _, side, _, hn, hw, hbreak, hbad, (if_pos hlt).symm⟩
  | append hn hw hne =>
    exact ⟨_, _, _, _, .after, _, hn, hw, (hempty hne).1, (hempty hne).2,
      (if_neg (Nat.lt_irrefl _)).symm⟩
  | prepend hn hw hne =>
    exact ⟨_, _, _, _, .before, _, hn, hw, (hempty hne).1, (hempty hne).2,
      (if_neg (Nat.lt_irrefl _)).symm⟩

theorem Realigns.of_proposes (hr : r ∈ rs.rules) (hsp : r.base.spacing? = none)
    (h : Proposes s lineBreak r ch) : rs.Realigns s lineBreak ch := by
  rw [← proposes_base_iff] at h
  have hhas : rs.Has r.base := ⟨r, hr, rfl⟩
  have hne : ∀ inner globs, r.base ≠ .onPaths inner globs := by
    intro inner globs
    clear hr hsp h hhas
    induction r with
    | onPaths _ _ ih => exact ih
    | _ => exact nofun
  generalize r.base = base at *
  cases h with
  | gap hsp' =>
    rw [hsp] at hsp'
    cases hsp'
  | trailing hend hstart => exact .trailing hhas hend hstart
  | onlyBlank hi hend hnone => exact .onlyBlank hhas hi hend hnone
  | @lineEnd i last hend hlast hbad =>
    unfold Layout.endChange
    split
    · exact .endFill hhas hend hlast (by assumption) hbad
    · have hi := Nat.le_of_lt (TokenStream.lt_of_kindIn hend)
      have hlt := ((TokenStream.previousOutside_eq_some_iff hi).1 hlast).1
      obtain rfl : i = last + 1 := by omega
      exact .endAppend hhas hend hlast
  | tabs hget hkind hindent => exact .tabs hhas hget hkind hindent
  | onPaths => exact absurd rfl (hne _ _)

theorem lineBreaks_self (s : TokenStream) (i : Nat) : Layout.lineBreaks s i i = 0 := by
  simp [Layout.lineBreaks]

theorem Realigns.proposed (h : rs.Realigns s lineBreak ch) : rs.Proposed s lineBreak ch := by
  have hlift : ∀ {base : Rule}, rs.Has base → Proposes s lineBreak base ch →
      rs.Proposed s lineBreak ch := by
    rintro base ⟨r, hr, rfl⟩ h
    exact ⟨r, hr, proposes_base_iff.1 h⟩
  cases h with
  | trailing hr hend hstart => exact hlift hr (.trailing hend hstart)
  | onlyBlank hr hi hend hnone => exact hlift hr (.onlyBlank hi hend hnone)
  | endFill hr hend hlast hlt hbad =>
    have h : Proposes s lineBreak .blankEof _ := .lineEnd hend hlast hbad
    rw [Layout.endChange, if_pos hlt] at h
    exact hlift hr h
  | endAppend hr hend hlast =>
    have h : Proposes s lineBreak .blankEof _ := .lineEnd hend hlast (by
      rw [lineBreaks_self]
      exact nofun)
    rw [Layout.endChange, if_neg (Nat.lt_irrefl _)] at h
    exact hlift hr h
  | tabs hr hget hkind hindent => exact hlift hr (.tabs hget hkind hindent)

/-- What the rules propose is about spaces or about lines. -/
theorem proposed_iff (hs : s.Regular) :
    rs.Proposed s lineBreak ch ↔ rs.Respaces s ch ∨ rs.Realigns s lineBreak ch := by
  constructor
  · rintro ⟨r, hr, h⟩
    cases hsp : r.base.spacing? with
    | none => exact .inr (.of_proposes hr hsp h)
    | some sp =>
      rw [← proposes_base_iff] at h
      obtain ⟨i, side, w, g, hi, hwanted, hgap, hbad, rfl⟩ := (proposes_gap_iff hsp).1 h
      obtain ⟨t, ht⟩ := TokenStream.exists_get? hi
      have hkind := Spacing.kind_of_wanted hsp ht hwanted
      obtain ⟨k, l, x, y, hn, rfl, rfl⟩ := hs.exists_neighbours ht hkind hgap
      rw [Spacing.accepts_eq_false_iff hs (hs.row_of_kind hn ht hkind),
        Spacing.acceptsLineBreak_of_builtIn hsp] at hbad
      replace hbad := hbad.resolve_left nofun
      exact .inl (respaces_of_bad hn (mem_widths.2 ⟨r, hr, sp, hsp, hwanted⟩) hbad.1 hbad.2)
  · rintro (h | h)
    · obtain ⟨i, j, x, y, side, w, hn, hw, hbreak, hbad, rfl⟩ := h.exists_bad
      obtain ⟨r, hr, sp, hsp, hwanted⟩ := mem_widths.1 hw
      obtain ⟨t, ht⟩ : ∃ t, s.get? (side.token i j) = some t := by
        cases side with
        | before => exact ⟨y, hn.right⟩
        | after => exact ⟨x, hn.left⟩
      have hkind := Spacing.kind_of_wanted hsp ht hwanted
      refine ⟨r, hr, proposes_base_iff.1 (.gap hsp (TokenStream.get?_lt ht) hwanted
        (hs.gap?_eq hn ht hkind) ?_)⟩
      exact (Spacing.accepts_eq_false_iff hs (hs.row_of_kind hn ht hkind)).2 (.inr ⟨hbreak, hbad⟩)
    · exact h.proposed

end Ruleset

end TwigStyle
