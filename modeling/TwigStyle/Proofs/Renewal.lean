import TwigStyle.Proofs.Counted
import TwigStyle.Proofs.Preservation

/-!
# What a pass leaves behind, and why

A pass without a conflict has tried everything that is proposed (`Passed`).  The piece of a token then
tells not only what became of it but also which proposal was the reason (`Piece.Told`), and the pieces of
all tokens are the row of cells between the template and the one that its new text is cut into
(`Renewal`).
-/

namespace TwigStyle

variable {rs : Ruleset} {t : Template} {source : List Char}

/-! ### Passes without a conflict -/

/-- What a pass without a conflict leaves behind: values that are made of proposals, and nothing that is
    proposed was left untried. -/
structure Passed (rs : Ruleset) (s : TokenStream) (lineBreak : List Char) (b : EditBuffer) :
    Prop where
  regular : s.Regular
  isBreak : lineBreak ∈ [['\n'], ['\r'], ['\r', '\n']]
  holds : b.Holds s
  made : b.Made s (rs.Proposed s lineBreak)
  tried : ∀ {ch}, rs.Proposed s lineBreak ch → ∃ e ∈ ch.edits s, ¬b.IsFree e.1

/-- The piece tells what became of the token at `i`, and for what reason. -/
structure Piece.Told (p : Piece) (rs : Ruleset) (s : TokenStream) (lineBreak : List Char)
    (b : EditBuffer) (i : Nat) : Prop extends p.Tells s b i where
  prepended : p.front ≠ [] → rs.Proposed s lineBreak (.prepend i p.front)
  appended : p.back ≠ [] → rs.Proposed s lineBreak (.append i p.back)
  edited : Lexeme.isLayout p.lexeme = false → ¬b.IsFree i → p.front ≠ [] ∨ p.back ≠ []

namespace Ruleset

variable {rs : Ruleset} {s : TokenStream} {lineBreak text : List Char} {i w : Nat}
  {t : Token}

theorem opens_of_width {side : Spacing.Side} (ht : s.get? i = some t) (hw : w ∈ rs.widths s i side)
    (hne : w ≠ 0) : opensBeside t.lexeme side = true := by
  obtain ⟨r, -, sp, hsp, hw⟩ := mem_widths.1 hw
  have hcl : Closing.all.Covers r.base := ⟨fun _ => rfl, fun _ => rfl⟩
  exact (Closing.wanted hcl hsp ht hw).2 hne

theorem Proposed.row {start stop : Nat} (h : rs.Proposed s lineBreak (.fill start stop text)) :
    start < stop ∧ ∀ k, start ≤ k → k < stop → s.kindIn k TokenKind.layout = true := by
  have hwiden : ∀ {kinds : List TokenKind}, kinds ⊆ TokenKind.layout →
      (∀ k, start ≤ k → k < stop → s.kindIn k kinds = true) →
      ∀ k, start ≤ k → k < stop → s.kindIn k TokenKind.layout = true :=
    fun hkinds hrow k hstart hstop => TokenStream.kindIn_mono hkinds (hrow k hstart hstop)
  obtain ⟨r, -, hch⟩ := h
  cases hch.shape with
  | gap _ _ _ _ hlt hrow => exact ⟨hlt, hwiden (by decide) hrow⟩
  | trailing _ _ hlt hrow => exact ⟨hlt, hwiden (by decide) hrow⟩
  | blankLines _ hlt hrow => exact ⟨hlt, hwiden (by decide) hrow⟩
  | tabs _ _ _ hrow => exact ⟨Nat.lt_succ_self _, hwiden (by decide) hrow⟩

theorem Proposed.of_append (hs : s.Regular) (h : rs.Proposed s lineBreak (.append i text)) :
    ∃ x y, s.Neighbours i (i + 1) x y ∧
      ((∃ w ∈ rs.widths s i .after, w ≠ 0 ∧ text = List.replicate w ' ') ∨
        y.kind = .eof ∧ text = lineBreak) := by
  rcases (proposed_iff hs).1 h with h | h
  · cases h with
    | append hn hw hne => exact ⟨_, _, hn, .inl ⟨_, hw, hne, rfl⟩⟩
  · cases h with
    | endAppend _ hend hlast =>
      have hsize := TokenStream.lt_of_kindIn hend
      obtain ⟨-, ⟨x, hx, hout⟩, -⟩ :=
        (TokenStream.previousOutside_eq_some_iff (Nat.le_of_lt hsize)).1 hlast
      obtain ⟨y, hy, hkind⟩ := TokenStream.kindIn_iff.1 hend
      have heof : y.kind = .eof := List.mem_singleton.1 hkind
      have hlayout : ∀ kind ∈ TokenKind.layout, kind ∉ Layout.blankLines →
          kind ∈ TokenKind.commentOpen := by decide
      refine ⟨x, y, ⟨Nat.lt_succ_self _, hx, hy, ?_, ?_, fun k h₁ h₂ => by omega⟩,
        .inr ⟨heof, rfl⟩⟩
      · rw [Bool.eq_false_iff]
        intro hin
        -- Behind the layout of a comment the comment goes on.
        have hnext := (hs.comment hx hy).1 (hlayout _ (List.contains_iff_mem.1 hin) hout)
        rw [heof] at hnext
        exact absurd hnext (by decide)
      · rw [Lexeme.isLayout]
        change TokenKind.layout.contains y.kind = false
        rw [heof]
        rfl

theorem Proposed.of_prepend {j : Nat} (hs : s.Regular)
    (h : rs.Proposed s lineBreak (.prepend j text)) :
    ∃ i x y w, j = i + 1 ∧ s.Neighbours i (i + 1) x y ∧ w ∈ rs.widths s (i + 1) .before ∧ w ≠ 0 ∧
      text = List.replicate w ' ' := by
  rcases (proposed_iff hs).1 h with h | h
  · cases h with
    | prepend hn hw hne => exact ⟨_, _, _, _, rfl, hn, hw, hne, rfl⟩
  · cases h

end Ruleset

namespace Passed

variable {rs : Ruleset} {s : TokenStream} {lineBreak text : List Char} {b : EditBuffer} {i : Nat}
  {t : Token}

theorem replicate_ne_nil {w : Nat} (h : w ≠ 0) : List.replicate w ' ' ≠ [] := by
  rwa [Ne, List.replicate_eq_nil_iff]

section

variable (h : Passed rs s lineBreak b) (ht : s.get? i = some t)
include h ht

theorem told_self {v : List Char} (hv : b.values[i]? = some v)
    (hlayout : Lexeme.isLayout t.lexeme = true → IsGap v)
    (hsolid : Lexeme.isLayout t.lexeme = false → v = t.value ∧ b.IsFree i) :
    Piece.Told ⟨t.lexeme, [], v, []⟩ rs s lineBreak b i := by
  have htoken := TokenStream.lexeme_of_get? ht
  have hgenuine : t.lexeme.Genuine := h.regular.genuine _ (List.mem_of_getElem? htoken)
  refine ⟨⟨⟨hgenuine, isGap_nil, isGap_nil, ?_, fun h => (hsolid h).1⟩, htoken, ?_, absurd rfl,
    absurd rfl⟩, absurd rfl, absurd rfl, fun h hedited => absurd (hsolid h).2 hedited⟩
  · exact fun h => ⟨hlayout h, rfl, rfl⟩
  · simpa [Piece.text] using hv

theorem told_append (hsolid : Lexeme.isLayout t.lexeme = false)
    (hch : rs.Proposed s lineBreak (.append i text)) (hv : b.values[i]? = some (t.value ++ text)) :
    Piece.Told ⟨t.lexeme, [], t.value, text⟩ rs s lineBreak b i := by
  have htoken := TokenStream.lexeme_of_get? ht
  have hgenuine : t.lexeme.Genuine := h.regular.genuine _ (List.mem_of_getElem? htoken)
  obtain ⟨x, y, hn, hreason⟩ := hch.of_append h.regular
  have htext : IsGap text ∧ text ≠ [] ∧
      (opensAfter t.lexeme = true ∨ s.kindIn (i + 1) [.eof] = true) := by
    rcases hreason with ⟨w, hw, hne, rfl⟩ | ⟨heof, rfl⟩
    · exact ⟨isGap_replicate w, replicate_ne_nil hne, .inl (Ruleset.opens_of_width ht hw hne)⟩
    · obtain ⟨hgap, hne⟩ := isGap_of_lineBreak h.isBreak
      exact ⟨hgap, hne,
        .inr (TokenStream.kindIn_iff.2 ⟨y, hn.right, by simp [heof]⟩)⟩
  refine ⟨⟨⟨hgenuine, isGap_nil, htext.1, ?_, fun _ => rfl⟩, htoken, ?_, fun _ => htext.2.2,
    absurd rfl⟩, absurd rfl, fun _ => hch, fun _ _ => .inr htext.2.1⟩
  · intro hlayout
    rw [hsolid] at hlayout
    cases hlayout
  · rw [hv]
    rfl

/-- The piece of a token in front of which something was put. -/
theorem told_prepend (hsolid : Lexeme.isLayout t.lexeme = false)
    (hch : rs.Proposed s lineBreak (.prepend i text)) (hv : b.values[i]? = some (text ++ t.value)) :
    Piece.Told ⟨t.lexeme, text, t.value, []⟩ rs s lineBreak b i := by
  have htoken := TokenStream.lexeme_of_get? ht
  have hgenuine : t.lexeme.Genuine := h.regular.genuine _ (List.mem_of_getElem? htoken)
  obtain ⟨m, x, y, w, rfl, hn, hw, hne, rfl⟩ := hch.of_prepend h.regular
  refine ⟨⟨⟨hgenuine, isGap_replicate w, isGap_nil, ?_, fun _ => rfl⟩, htoken, ?_, absurd rfl,
    fun _ => Ruleset.opens_of_width ht hw hne⟩, fun _ => hch, absurd rfl,
    fun _ _ => .inl (replicate_ne_nil hne)⟩
  · intro hlayout
    rw [hsolid] at hlayout
    cases hlayout
  · rw [hv]
    simp [Piece.text]

end

theorem exists_told (h : Passed rs s lineBreak b) (hi : i < s.size) :
    ∃ p : Piece, p.Told rs s lineBreak b i := by
  obtain ⟨t, ht⟩ := TokenStream.exists_get? hi
  have htoken := TokenStream.lexeme_of_get? ht
  by_cases hfree : b.IsFree i
  · have hv : b.values[i]? = some t.value := by
      have hget : s.tokens[i]? = some t := ht
      simp [h.holds.value i hfree, TokenStream.values, hget]
    have hgap := (h.regular.genuine _ (List.mem_of_getElem? htoken)).gap
    exact ⟨_, h.told_self ht hv hgap fun _ => ⟨rfl, hfree⟩⟩
  · obtain ⟨ch, hch, hshows, hmem⟩ := h.made i hi hfree
    obtain ⟨e, he, rfl⟩ := List.mem_map.1 hmem
    have hv := (hshows e he).1
    cases hl : Lexeme.isLayout t.lexeme with
    | true =>
      obtain ⟨r, hr, hr'⟩ := hch
      have hbreak := (isGap_of_lineBreak h.isBreak).1
      have hgap := (hr'.edit (Ruleset.covers hr) h.regular.genuine hbreak he ht).1
      refine ⟨_, h.told_self ht hv hgap fun h => ?_⟩
      rw [hl] at h
      cases h
    | false =>
      cases ch with
      | fill start stop text =>
        obtain ⟨hlt, hrow⟩ := hch.row
        obtain ⟨h₁, h₂, -⟩ := Change.of_mem_fill he hlt
        have hlayout := TokenStream.isLayout_of_kindIn ht (List.Subset.refl _) (hrow _ h₁ h₂)
        rw [hl] at hlayout
        cases hlayout
      | append k text =>
        rw [List.mem_singleton.1 he] at ht hv ⊢
        rw [value_of_get? ht] at hv
        exact ⟨_, h.told_append ht hl hch hv⟩
      | prepend k text =>
        rw [List.mem_singleton.1 he] at ht hv ⊢
        rw [value_of_get? ht] at hv
        exact ⟨_, h.told_prepend ht hl hch hv⟩

end Passed

/-! ### The row of a pass -/

section Row

variable {ps init lay rest : List Piece} {p q : Piece}

theorem cells_getElem? (h : ps = init ++ p :: (lay ++ q :: rest))
    (hp : Lexeme.isLayout p.lexeme = false) (hlay : ∀ m ∈ lay, Lexeme.isLayout m.lexeme = true)
    (hq : Lexeme.isLayout q.lexeme = false) :
    (cells ps).2.2[(meaningful (init.map Piece.lexeme)).length]? = some (p.gapCell lay q) := by
  subst h
  induction init with
  | nil =>
    rw [List.nil_append, cells_solid hp, cells_append hlay, cells_solid hq]
    simp [Piece.gapCell, meaningful]
  | cons m init ih =>
    rw [List.map_cons, List.cons_append]
    cases hm : Lexeme.isLayout m.lexeme with
    | true =>
      rw [cells_layout hm, meaningful_cons_layout hm]
      exact ih
    | false =>
      rw [cells_solid hm, meaningful_cons_solid hm, List.length_cons, List.getElem?_cons_succ]
      exact ih

theorem exists_pieces {n : Nat} (h : n + 1 < (meaningful (ps.map Piece.lexeme)).length) :
    ∃ init p lay q rest, ps = init ++ p :: (lay ++ q :: rest) ∧
      Lexeme.isLayout p.lexeme = false ∧ (∀ m ∈ lay, Lexeme.isLayout m.lexeme = true) ∧
      Lexeme.isLayout q.lexeme = false ∧ (meaningful (init.map Piece.lexeme)).length = n := by
  obtain ⟨_, _, _, _, _, hls, hl, hlay, hm, rfl⟩ := exists_split h
  obtain ⟨init, ps₁, rfl, rfl, hps₁⟩ := List.map_eq_append_iff.1 hls
  obtain ⟨p, ps₂, rfl, rfl, hps₂⟩ := List.map_eq_cons_iff.1 hps₁
  obtain ⟨lay, ps₃, rfl, rfl, hps₃⟩ := List.map_eq_append_iff.1 hps₂
  obtain ⟨q, rest, rfl, rfl, -⟩ := List.map_eq_cons_iff.1 hps₃
  exact ⟨init, p, lay, q, rest, rfl, hl, fun m hm' => hlay _ (List.mem_map_of_mem hm'), hm, rfl⟩

theorem cells_concat (hp : Lexeme.isLayout p.lexeme = false) (hfront : p.front = [])
    (hback : p.back = []) :
    cells (ps ++ [p]) = ((cells ps).1, (cells ps).2.1, (cells ps).2.2 ++ [⟨p.lexeme, [], []⟩]) := by
  induction ps with
  | nil =>
    rw [List.nil_append, cells_solid hp, hfront, hback]
    rfl
  | cons m ps ih =>
    rw [List.cons_append]
    cases hm : Lexeme.isLayout m.lexeme with
    | true => rw [cells_layout hm, cells_layout hm, ih]
    | false => rw [cells_solid hm, cells_solid hm, ih, List.cons_append]

end Row

/-- No lexemes of the template run together when the rules close gaps, or the rules close none. -/
def Ruleset.Unjoined (rs : Ruleset) (t : Template) : Prop :=
  rs.closing = .none ∨
    ∃ ls, t.stream.lexemes = ls ++ [(.eof, [])] ∧ sticky rs.closing [] (laid ls).2 = false

theorem Ruleset.unjoined_of_joins {table : OperatorTable} (ht : tokenize table source = .ok t)
    (h : rs.joins t = false) : rs.Unjoined t := by
  obtain ⟨ls, hls, -, -⟩ := tokenize_lexemes ht
  refine .inr ⟨ls, hls, ?_⟩
  rw [Bool.eq_false_iff]
  intro hsticky
  rw [joins, hls, laid_concat rfl, sticky_append _ hsticky] at h
  cases h

/-- Where every gap changes for a reason, the new text is cut into the same lexemes. -/
theorem Ruleset.Unjoined.tokenize {g g' : List Char} {ls : List Lexeme} {row : List Cell}
    (h : rs.Unjoined t) (ht : tokenize OperatorTable.default source = .ok t)
    (hls : t.stream.lexemes = ls ++ [(.eof, [])]) (hlaid : laid ls = (g, rowLaid Cell.old row))
    (hgap' : IsGap g') (hlinked : Linked rs.closing [] row)
    (hcells : ∀ c ∈ row, c.lexeme.2 ≠ [] ∧ IsGap c.old ∧ IsGap c.new) :
    ∃ t' ls', TwigStyle.tokenize OperatorTable.default (g' ++ rowText Cell.new row) = .ok t' ∧
      t'.stream.lexemes = ls' ++ [(.eof, [])] ∧ laid ls' = (g', rowLaid Cell.new row) ∧
      rs.Unjoined t' := by
  rcases h with hnone | ⟨ls₀, hls₀, hsticky⟩
  · have hseparate := separate_of_apart (tokenize_apart ht hls) hlaid
    rw [hnone] at hlinked
    obtain ⟨t', ls', ht', hls', hlaid'⟩ :=
      tokenize_respace ht hls hlaid (fits_of_linked_none hlinked hseparate hcells) hgap'
    exact ⟨t', ls', ht', hls', hlaid', .inl hnone⟩
  · obtain rfl : ls₀ = ls := List.append_cancel_right (hls₀.symm.trans hls)
    obtain ⟨t', ls', ht', hls', hlaid', hsticky'⟩ :=
      tokenize_linked ht hls hlaid hgap' hlinked hcells hsticky
    exact ⟨t', ls', ht', hls', hlaid', .inr ⟨ls', hls', hsticky'⟩⟩

/-- The pieces of all tokens, and the template that their new values are cut into. -/
structure Renewal (rs : Ruleset) (s : TokenStream) (lineBreak : List Char) (b : EditBuffer)
    (ps : List Piece) (s' : TokenStream) : Prop where
  length : ps.length = s.size
  told : ∀ k (m : Piece), ps[k]? = some m → m.Told rs s lineBreak b k
  old : laid s.lexemes = ((cells ps).1, rowLaid Cell.old (cells ps).2.2)
  new : laid s'.lexemes = ((cells ps).2.1, rowLaid Cell.new (cells ps).2.2)

namespace Passed

variable {rs : Ruleset} {t : Template} {lineBreak : List Char} {b : EditBuffer}

theorem exists_renewal (ht : tokenize OperatorTable.default source = .ok t)
    (hunjoined : rs.Unjoined t) (h : Passed rs t.stream lineBreak b) :
    ∃ t' ps, tokenize OperatorTable.default b.text = .ok t' ∧ rs.Unjoined t' ∧
      Renewal rs t.stream lineBreak b ps t'.stream := by
  obtain ⟨ls, hls, -, hsolid⟩ := tokenize_lexemes ht
  obtain ⟨ps, hlength, htold⟩ := exists_list t.stream.size fun k hk => h.exists_told hk
  have htells := fun k m hm => (htold k m hm).toTells
  obtain ⟨hlexemes, -⟩ := Piece.all_of_tells h.holds hlength htells
  -- The last piece is the end of the file.
  rcases List.eq_nil_or_concat ps with rfl | ⟨ps, p, rfl⟩
  · rw [hls] at hlexemes
    exact absurd hlexemes.symm (by simp)
  rw [List.concat_eq_append] at hlength htold htells hlexemes
  obtain ⟨hlaid, htext, hgap, hlinked, hcells⟩ :=
    row_of_tells hls hsolid h.holds h.made hlength htells
  obtain ⟨t', ls', ht', hls', hlaid', hunjoined'⟩ :=
    hunjoined.tokenize ht hls hlaid hgap hlinked hcells
  rw [← htext] at ht'
  refine ⟨t', ps ++ [p], ht', hunjoined', hlength, htold, ?_, ?_⟩
  · rw [← hlexemes]
    exact laid_cells _
  · have hp : p.lexeme = (.eof, []) := by
      rw [hls, List.map_append] at hlexemes
      exact (List.cons.inj (List.append_inj' hlexemes rfl).2).1
    have hlast := Piece.text_of_eof (htells ps.length p (by simp)) (by simpa using hlength) hp
    rw [Piece.text, List.append_eq_nil_iff, List.append_eq_nil_iff] at hlast
    rw [hls', laid_concat rfl, hlaid', cells_concat (by rw [hp]; rfl) hlast.1.1 hlast.2, hp]
    simp [rowLaid]

end Passed

/-- Where a pass meets the gap with a number. -/
structure Renewal.Site (s s' : TokenStream) (b : EditBuffer) (ps : List Piece) (n : Nat)
    (init : List Piece) (p : Piece) (lay : List Piece) (q : Piece) (rest : List Piece) (x y : Token) :
    Prop where
  split : ps = init ++ p :: (lay ++ q :: rest)
  adjacent : Piece.Adjacent s b init.length p lay q
  neighbours : s.Neighbours init.length (init.length + 1 + lay.length) x y
  left : x.lexeme = p.lexeme
  right : y.lexeme = q.lexeme
  number : (s.before init.length).length = n
  text : s.gapText init.length (init.length + 1 + lay.length) = s.gapAt n
  old : s.gapAt n = spell (lay.map Piece.lexeme)
  new : s'.gapAt n = p.back ++ (lay.map Piece.body).flatten ++ q.front

namespace Renewal

variable {rs : Ruleset} {s s' : TokenStream} {lineBreak : List Char} {b : EditBuffer}
  {ps init lay rest : List Piece} {n : Nat} {p q : Piece} {x y : Token}

theorem Site.getElem?_left (h : Site s s' b ps n init p lay q rest x y) :
    ps[init.length]? = some p := by
  rw [h.split]
  simp

theorem Site.getElem?_right (h : Site s s' b ps n init p lay q rest x y) :
    ps[init.length + 1 + lay.length]? = some q := by
  have hps : ps = (init ++ p :: lay) ++ q :: rest := by
    rw [h.split]
    simp
  rw [hps, List.getElem?_append_right (by simp; omega)]
  simp [Nat.add_assoc, Nat.add_comm 1]

section

variable (h : Renewal rs s lineBreak b ps s')
include h

theorem lexemes_eq (hb : b.Holds s) : ps.map Piece.lexeme = s.lexemes :=
  (Piece.all_of_tells hb h.length fun k m hm => (h.told k m hm).toTells).1

theorem site_of_split (hb : b.Holds s) (hps : ps = init ++ p :: (lay ++ q :: rest))
    (hp : Lexeme.isLayout p.lexeme = false) (hlay : ∀ m ∈ lay, Lexeme.isLayout m.lexeme = true)
    (hq : Lexeme.isLayout q.lexeme = false) :
    ∃ x y, Site s s' b ps (meaningful (init.map Piece.lexeme)).length init p lay q rest x y := by
  have hadjacent := Piece.adjacent_of_split (fun k m hm => (h.told k m hm).toTells) hps hp hlay hq
  obtain ⟨x, y, hn, hx, hy⟩ := hadjacent.neighbours
  have hcell := cells_getElem? hps hp hlay hq
  have hlexemes := h.lexemes_eq hb
  have hold : s.gapAt (meaningful (init.map Piece.lexeme)).length = spell (lay.map Piece.lexeme) := by
    rw [TokenStream.gapAt, h.old]
    simp [rowLaid, hcell, Piece.gapCell]
  refine ⟨x, y, hps, hadjacent, hn, hx, hy, ?_, ?_, hold, ?_⟩
  · rw [TokenStream.before, ← hlexemes, hps]
    simp
  · have hmap : ps.map Piece.lexeme = (init.map Piece.lexeme ++ [p.lexeme]) ++
        (lay.map Piece.lexeme ++ (q :: rest).map Piece.lexeme) := by
      rw [hps]
      simp
    rw [hold, TokenStream.gapText_eq, ← hlexemes, hmap, List.drop_take,
      List.drop_left' (by simp), List.take_left' (by rw [List.length_map]; omega)]
  · rw [TokenStream.gapAt, h.new]
    simp [rowLaid, hcell, Piece.gapCell]

theorem meaningful_eq : meaningful s'.lexemes = meaningful s.lexemes := by
  rw [meaningful_eq_laid, meaningful_eq_laid, h.old, h.new, rowLaid, rowLaid, List.map_map,
    List.map_map]
  rfl

theorem exists_site (hb : b.Holds s) (hn : n + 1 < s.count) :
    ∃ init p lay q rest x y, Site s s' b ps n init p lay q rest x y := by
  rw [TokenStream.count, ← h.lexemes_eq hb] at hn
  obtain ⟨init, p, lay, q, rest, hps, hp, hlay, hq, rfl⟩ := exists_pieces hn
  obtain ⟨x, y, hsite⟩ := h.site_of_split hb hps hp hlay hq
  exact ⟨init, p, lay, q, rest, x, y, hsite⟩

end

end Renewal

end TwigStyle
