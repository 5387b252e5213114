import TwigStyle.Proofs.Prose

/-!
# Template text with other layout

Outside of code no gap is opened or closed: the lexemes there are quiet.  So a step on template
text, which reads words up to the next delimiter together with a whole comment, does the same with
other layout (`Data.respace`).  The end of a verbatim body is the one place where text is looked at
that is read as code later on; `TagTail` is what has to be found there.
-/

namespace TwigStyle

variable {x y : Lexeme} {cl : Closing} {before : List Lexeme}

/-- Lexemes behind which no gap is opened or closed for their sake. -/
def quietBehind (k : TokenKind) : Bool :=
  !([.variableStart, .blockStart, .operator, .punctuation] : List TokenKind).contains k

/-- Lexemes in front of which no gap is opened or closed for their sake. -/
def quietInFront (k : TokenKind) : Bool :=
  !([.variableEnd, .blockEnd, .operator, .punctuation] : List TokenKind).contains k

theorem opensAfter_of_quiet (h : quietBehind x.1 = true) : opensAfter x = false := by
  obtain ⟨k, v⟩ := x
  cases k <;> first | rfl | cases h

theorem opensBefore_of_quiet (h : quietInFront y.1 = true) : opensBefore y = false := by
  obtain ⟨k, v⟩ := y
  cases k <;> first | rfl | cases h

theorem Closing.after_of_quiet (h : quietBehind x.1 = true) : cl.after before x = false := by
  obtain ⟨k, v⟩ := x
  have hp : (k == TokenKind.punctuation) = false := by
    cases k <;> first | rfl | cases h
  have ho : (k == TokenKind.operator) = false := by
    cases k <;> first | rfl | cases h
  simp [Closing.after, hp, ho]

theorem Closing.before_of_quiet (h : quietInFront y.1 = true) : cl.before y = false := by
  obtain ⟨k, v⟩ := y
  have hp : (k == TokenKind.punctuation) = false := by
    cases k <;> first | rfl | cases h
  have ho : (k == TokenKind.operator) = false := by
    cases k <;> first | rfl | cases h
  simp [Closing.before, hp, ho]

theorem Joint.same {c d : Cell} {row : List Cell} (h : Joint before c (d :: row))
    (hc : quietBehind c.lexeme.1 = true) (hd : quietInFront d.lexeme.1 = true) :
    c.old = [] ↔ c.new = [] := by
  constructor
  · intro hold
    refine Classical.byContradiction fun hnew => ?_
    have := h.opens hold hnew d rfl
    rw [opensAfter_of_quiet hc, opensBefore_of_quiet hd] at this
    cases this
  · intro hnew
    refine Classical.byContradiction fun hold => ?_
    have := h.closes hold hnew d rfl
    rw [Closing.closes, Closing.after_of_quiet hc, Closing.before_of_quiet hd] at this
    cases this

section Fits

variable {before : List Lexeme} {row row' : List Cell} {c : Cell} {k : TokenKind}

theorem Fits.append (h : Fits before (row ++ row')) :
    Fits ((row.map Cell.lexeme).reverse ++ before) row' := by
  induction row generalizing before with
  | nil => exact h
  | cons d row ih =>
    have := ih h.2
    simpa using this

theorem Fits.new (h : Fits before row) : ∀ c ∈ row, IsGap c.new := by
  induction row generalizing before with
  | nil => exact nofun
  | cons d row ih =>
    intro c hc
    rcases List.mem_cons.1 hc with rfl | hc
    · exact h.1.new
    · exact ih h.2 c hc

theorem Fits.old (h : Fits before row) : ∀ c ∈ row, IsGap c.old := by
  induction row generalizing before with
  | nil => exact nofun
  | cons d row ih =>
    intro c hc
    rcases List.mem_cons.1 hc with rfl | hc
    · exact h.1.old
    · exact ih h.2 c hc

theorem Fits.prose_same (h : Fits before (row ++ c :: row'))
    (hprose : Prose k (rowLaid Cell.old row)) (hbehind : quietBehind k = true)
    (hfront : quietInFront k = true) (hc : quietInFront c.lexeme.1 = true) :
    ∀ d ∈ row, d.old = [] ↔ d.new = [] := by
  induction row generalizing before with
  | nil => exact nofun
  | cons e row ih =>
    obtain ⟨hjoint, hrest⟩ := h
    obtain ⟨hk, -, -, -, -, hprose⟩ := hprose
    intro d hd
    rcases List.mem_cons.1 hd with rfl | hd
    · have hquiet : quietBehind d.lexeme.1 = true := hk ▸ hbehind
      cases row with
      | nil => exact hjoint.same hquiet hc
      | cons f row => exact hjoint.same hquiet (hprose.1 ▸ hfront)
    · exact ih hrest hprose d hd

end Fits

/-! ### Delimiters -/

/-- The end of the tag that ends a verbatim body. -/
def TagEnd (t : List Char) : Prop :=
  ∃ r, (Delimiter.trimMarker (t.dropWhile Text.isBlank)).2 = '%' :: '\x7d' :: r

/-- The tag that ends a verbatim body, behind its first delimiter. -/
def TagTail (t : List Char) : Prop :=
  ∃ w r, (w = "endverbatim".toList ∨ w = "endraw".toList) ∧
    t.dropWhile Text.isBlank = w ++ r ∧ TagEnd r

theorem Delimiter.endsVerbatim_iff_tagTail {value rest : List Char} {k : Construct}
    (h : at? (value ++ rest) = some (k, value, rest)) :
    endsVerbatim (value ++ rest) = true ↔ k = .block ∧ TagTail rest := by
  obtain ⟨d, marker, rfl, hd, hmarker⟩ := at?_eq_some_iff.1 h
  rw [endsVerbatim_iff]
  constructor
  · rintro ⟨t₁, w, r, r', ht, hw, hname, hend⟩
    obtain ⟨rfl, rfl⟩ : d = '%' ∧ marker ++ rest = t₁ := by simpa using ht
    rw [hmarker] at hname
    exact ⟨(Option.some.inj hd).symm, w, r, hw, hname, r', hend⟩
  · rintro ⟨rfl, w, r, hw, hname, r', hend⟩
    obtain rfl : d = '%' := by
      unfold construct? at hd
      split at hd
      · cases hd
      · split at hd
        · rename_i hpercent
          exact eq_of_beq hpercent
        · split at hd <;> cases hd
    exact ⟨marker ++ rest, w, r, r', rfl, hw, by rw [hmarker]; exact hname, hend⟩

section Delimiters

variable {before : List Lexeme} {c : Cell} {row : List Cell}

/-- A delimiter is not longer with other layout behind it. -/
theorem Fits.delimiter {k : Construct} (hfit : Fits before (c :: row))
    (hc : c.lexeme.1 ≠ .operator ∧ c.lexeme.1 ≠ .punctuation)
    (h : Delimiter.at? (c.lexeme.2 ++ (c.old ++ rowText Cell.old row)) =
      some (k, c.lexeme.2, c.old ++ rowText Cell.old row)) :
    Delimiter.at? (c.lexeme.2 ++ (c.new ++ rowText Cell.new row)) =
      some (k, c.lexeme.2, c.new ++ rowText Cell.new row) := by
  obtain ⟨hjoint, hrest⟩ := hfit
  obtain ⟨d, marker, hvalue, hd, hmarker⟩ := Delimiter.at?_eq_some_iff.1 h
  rw [Delimiter.at?_eq_some_iff]
  refine ⟨d, marker, hvalue, hd, ?_⟩
  have hnone : ∀ {t : List Char}, Delimiter.trimMarker t = ([], t) ↔
      ∀ m ∈ t.head?, Delimiter.isTrimMarker m = false := by
    intro t
    cases t with
    | nil => simp [Delimiter.trimMarker]
    | cons a t => cases ha : Delimiter.isTrimMarker a <;> simp [Delimiter.trimMarker, ha]
  cases marker with
  | cons m marker =>
    -- A marker that is there is taken.
    rw [List.cons_append] at hmarker ⊢
    cases hm : Delimiter.isTrimMarker m with
    | false => simp [Delimiter.trimMarker, hm] at hmarker
    | true =>
      simp only [Delimiter.trimMarker, hm, if_true, Prod.mk.injEq, List.cons.injEq, true_and]
        at hmarker ⊢
      obtain ⟨rfl, -⟩ := hmarker
      simp
  | nil =>
    rw [List.nil_append, hnone] at hmarker ⊢
    intro m hm
    cases hnew : c.new with
    | cons a g =>
      rw [hnew] at hm
      obtain rfl : a = m := by simpa using hm
      have ha : Text.isLayout a = true := hjoint.new a (by simp [hnew])
      cases htrim : Delimiter.isTrimMarker a with
      | false => rfl
      | true =>
        rw [Delimiter.isLayout_of_isTrimMarker htrim] at ha
        cases ha
    | nil =>
      rw [hnew, List.nil_append] at hm
      cases row with
      | nil => cases hm
      | cons e row =>
        rw [rowText_cons] at hm hmarker
        cases hv : e.lexeme.2 with
        | nil => exact absurd hv hrest.1.value
        | cons b v =>
          rw [hv] at hm hmarker
          obtain rfl : b = m := by simpa using hm
          by_cases hold : c.old = []
          · exact hmarker b (by simp [hold])
          · have hclose := hjoint.closes hold hnew e rfl
            have hafter : Closing.all.after before c.lexeme = false := by
              simp [Closing.after, hc.1, hc.2]
            rw [Closing.closes, hafter, Bool.false_or] at hclose
            have hno : ∀ b ∈ ")]\x7d,:.|".toList, Delimiter.isTrimMarker b = false := by
              simp [Delimiter.isTrimMarker]
            exact hno b (Closing.before_head hclose (by rw [hv]; rfl))

end Delimiters

theorem laid_append {ls ms : List Lexeme} (h : (laid ms).1 = []) :
    laid (ls ++ ms) = ((laid ls).1, (laid ls).2 ++ (laid ms).2) := by
  induction ls with
  | nil => exact Prod.ext h rfl
  | cons l ls ih =>
    cases hl : Lexeme.isLayout l with
    | true => rw [List.cons_append, laid_cons_layout hl, laid_cons_layout hl, ih]
    | false =>
      rw [List.cons_append, laid_cons_solid hl, laid_cons_solid hl, ih]
      rfl

/-! ### Template text -/

section Pieces

variable {kind : Lexeme.LayoutClass → TokenKind} {b g : List Char} {x : Lexeme} {row : List Cell}
  {ms : List Lexeme} {side : Cell → List Char}

@[simp] theorem spell_pieceLexemes (t : List Char) : spell (pieceLexemes kind t) = t := by
  rw [spell, pieceLexemes, List.map_map]
  exact Lexeme.layoutPieces_flatten t

/-- A row that is cut from a text and something behind it is prose and the rest. -/
theorem split_pieces (hkind : TellsLayout kind) (hx : Lexeme.isLayout x = false)
    (h : laid (pieceLexemes kind b ++ x :: ms) = (g, rowLaid Cell.old row)) :
    ∃ rowT c rowR, row = rowT ++ c :: rowR ∧ c.lexeme = x ∧
      laid ms = (c.old, rowLaid Cell.old rowR) ∧ b = g ++ rowText Cell.old rowT ∧ IsGap g ∧
      Prose (kind .text) (rowLaid Cell.old rowT) := by
  obtain ⟨hgap, hprose⟩ := prose_of_pieces hkind b
  have hspell := spell_eq_laid (pieceLexemes kind b)
  rw [laid_append (by rw [laid_cons_solid hx]), laid_cons_solid hx] at h
  obtain ⟨hg, hrow⟩ := Prod.mk.inj h
  obtain ⟨rowT, rowX, rfl, hT, hX⟩ := List.map_eq_append_iff.1 hrow.symm
  obtain ⟨c, rowR, rfl, hc, hR⟩ := List.map_eq_cons_iff.1 hX
  obtain ⟨hlexeme, hold⟩ := Prod.mk.inj hc
  refine ⟨rowT, c, rowR, rfl, hlexeme, Prod.ext hold.symm hR.symm, ?_, hg ▸ hgap, ?_⟩
  · rw [spell_pieceLexemes, hg, ← hT] at hspell
    rw [hspell, rowText, List.flatMap_map]
  · rw [← hT] at hprose
    exact hprose

theorem pieces_row (hkind : TellsLayout kind)
    (h : laid (pieceLexemes kind b) = (g, rowLaid Cell.old row)) :
    b = g ++ rowText Cell.old row ∧ IsGap g ∧ Prose (kind .text) (rowLaid Cell.old row) := by
  obtain ⟨hgap, hprose⟩ := prose_of_pieces hkind b
  rw [h] at hgap hprose
  refine ⟨?_, hgap, hprose⟩
  have hspell := spell_of_laid h
  rwa [spell_pieceLexemes] at hspell

theorem laid_pieces_row (hkind : TellsLayout kind) (hg : IsGap g)
    (hprose : Prose (kind .text) (rowLaid side row)) :
    laid (pieceLexemes kind (g ++ rowText side row)) = (g, rowLaid side row) := by
  have h := laid_of_prose hkind hg hprose
  rwa [rowLaid, List.flatMap_map] at h

theorem meaningful_pieces_row (hkind : TellsLayout kind) (hg : IsGap g)
    (hprose : Prose (kind .text) (rowLaid side row)) :
    meaningful (pieceLexemes kind (g ++ rowText side row)) = row.map Cell.lexeme := by
  rw [meaningful_eq_laid, laid_pieces_row hkind hg hprose, rowLaid, List.map_map]
  rfl

theorem laid_join (hkind : TellsLayout kind) {h : List Char} {rows : List (Lexeme × List Char)}
    (hg : IsGap g) (hx : Lexeme.isLayout x = false)
    (hprose : Prose (kind .text) (rowLaid side row)) (hms : laid ms = (h, rows)) :
    laid (pieceLexemes kind (g ++ rowText side row) ++ x :: ms) =
      (g, rowLaid side row ++ (x, h) :: rows) := by
  rw [laid_append (by rw [laid_cons_solid hx]), laid_cons_solid hx,
    laid_pieces_row hkind hg hprose, hms]

theorem meaningful_join (hkind : TellsLayout kind) (hg : IsGap g) (hx : Lexeme.isLayout x = false)
    (hprose : Prose (kind .text) (rowLaid side row)) :
    meaningful (pieceLexemes kind (g ++ rowText side row) ++ x :: ms) =
      row.map Cell.lexeme ++ x :: meaningful ms := by
  rw [meaningful_append, meaningful_pieces_row hkind hg hprose, meaningful_cons_solid hx]

end Pieces

theorem rowText_append (side : Cell → List Char) (row row' : List Cell) :
    rowText side (row ++ row') = rowText side row ++ rowText side row' := by
  simp [rowText]

namespace Lexer

variable {verbatim verbatim' : Bool} {g g' rest value : List Char} {before new more : List Lexeme}
  {row rowR : List Cell} {frames : List Frame} {x : TokenKind} {c : Cell}

/-- Words and the delimiter behind them, with other layout. -/
theorem find_respace {b : List Char} {k : Construct}
    (hfind : Delimiter.find verbatim 0 (g ++ rowText Cell.old row) = (b, some (k, value, rest)))
    (hx : Lexeme.isLayout (x, value) = false) (hquiet : quietInFront x = true)
    (hstart : x ≠ .operator ∧ x ≠ .punctuation)
    (hlaid : laid (textLexemes b ++ (x, value) :: more) = (g, rowLaid Cell.old row))
    (hfit : Fits before row) (hg' : IsGap g')
    (htag : verbatim = true → k = .block → ∀ rowT c rowR, row = rowT ++ c :: rowR →
      laid more = (c.old, rowLaid Cell.old rowR) → TagTail (c.old ++ rowText Cell.old rowR) →
      TagTail (c.new ++ rowText Cell.new rowR)) :
    ∃ rowT c rowR, row = rowT ++ c :: rowR ∧ c.lexeme = (x, value) ∧
      laid more = (c.old, rowLaid Cell.old rowR) ∧ rest = c.old ++ rowText Cell.old rowR ∧
      b = g ++ rowText Cell.old rowT ∧ IsGap g ∧ Prose .text (rowLaid Cell.old rowT) ∧
      Prose .text (rowLaid Cell.new rowT) ∧
      Delimiter.find verbatim 0 (g' ++ rowText Cell.new row) =
        (g' ++ rowText Cell.new rowT, some (k, value, c.new ++ rowText Cell.new rowR)) := by
  rw [textLexemes_eq] at hlaid
  obtain ⟨rowT, c, rowR, rfl, hlexeme, hmore, rfl, hg, hprose⟩ :=
    split_pieces codeKind_tells hx hlaid
  have hvalue : c.lexeme.2 = value := congrArg Prod.snd hlexeme
  have hkind : c.lexeme.1 = x := congrArg Prod.fst hlexeme
  have htext : ∀ side : Cell → List Char, rowText side (rowT ++ c :: rowR) =
      rowText side rowT ++ (value ++ (side c ++ rowText side rowR)) := by
    intro side
    rw [rowText_append, rowText_cons, hvalue]
  obtain rfl : rest = c.old ++ rowText Cell.old rowR := by
    have happend := (Delimiter.find_append hfind).1
    rw [htext, List.append_assoc] at happend
    exact List.append_cancel_left (List.append_cancel_left (List.append_cancel_left happend))
  have hsame := hfit.prose_same hprose rfl rfl (by rw [hkind]; exact hquiet)
  have hnew : ∀ d ∈ rowT, IsGap d.new := fun d hd => hfit.new d (List.mem_append_left _ hd)
  obtain ⟨hat, hverbatim⟩ := Delimiter.find_found hfind
  have hat' : Delimiter.at? (value ++ (c.new ++ rowText Cell.new rowR)) =
      some (k, value, c.new ++ rowText Cell.new rowR) := by
    have := hfit.append.delimiter (k := k) (by rw [hkind]; exact hstart)
    rw [hvalue] at this
    exact this hat
  refine ⟨rowT, c, rowR, rfl, hlexeme, hmore, rfl, rfl, hg, hprose,
    prose_new hprose hnew fun d hd => hsame d ((List.dropLast_sublist rowT).subset hd), ?_⟩
  rw [htext] at hfind ⊢
  refine Delimiter.find_prose hg hg' hprose hnew hsame hfind hat' fun hv => ?_
  obtain ⟨hk, htail⟩ := (Delimiter.endsVerbatim_iff_tagTail hat).1 (hverbatim hv)
  exact (Delimiter.endsVerbatim_iff_tagTail hat').2
    ⟨hk, htag hv hk rowT c rowR rfl hmore htail⟩

/-- What a step on template text makes of a row with other layout. -/
structure DataRespaced (verbatim : Bool) (row : List Cell) (g' : List Char)
    (new more : List Lexeme) (frames : List Frame) (verbatim' : Bool) (rest : List Char)
    (rowL rowR : List Cell) (h h' : List Char) (new' : List Lexeme) : Prop where
  row_eq : row = rowL ++ rowR
  more : laid more = (h, rowLaid Cell.old rowR)
  rest : rest = h ++ rowText Cell.old rowR
  gap : IsGap h
  gap' : IsGap h'
  lexemes : meaningful new = rowL.map Cell.lexeme
  lexemes' : meaningful new' = rowL.map Cell.lexeme
  data : Data verbatim (g' ++ rowText Cell.new row) new' frames verbatim'
    (h' ++ rowText Cell.new rowR)
  laid : ∀ more', TwigStyle.laid more' = (h', rowLaid Cell.new rowR) →
    TwigStyle.laid (new' ++ more') = (g', rowLaid Cell.new row)

theorem respaced_open {rowT : List Cell} (hfit : Fits before (rowT ++ c :: rowR)) (hg : IsGap g)
    (hg' : IsGap g') (hprose : Prose .text (rowLaid Cell.old rowT))
    (hprose' : Prose .text (rowLaid Cell.new rowT)) (hlexeme : c.lexeme = (x, value))
    (hx : Lexeme.isLayout (x, value) = false) (hmore : laid more = (c.old, rowLaid Cell.old rowR))
    (hdata : Data verbatim (g' ++ rowText Cell.new (rowT ++ c :: rowR))
      (textLexemes (g' ++ rowText Cell.new rowT) ++ [(x, value)]) frames verbatim'
      (c.new ++ rowText Cell.new rowR)) :
    DataRespaced verbatim (rowT ++ c :: rowR) g'
      (textLexemes (g ++ rowText Cell.old rowT) ++ [(x, value)]) more frames verbatim'
      (c.old ++ rowText Cell.old rowR) (rowT ++ [c]) rowR c.old c.new
      (textLexemes (g' ++ rowText Cell.new rowT) ++ [(x, value)]) where
  row_eq := by simp
  more := hmore
  rest := rfl
  gap := hfit.old c (by simp)
  gap' := hfit.new c (by simp)
  lexemes := by
    rw [textLexemes_eq, meaningful_join codeKind_tells hg hx hprose, List.map_append,
      List.map_singleton, hlexeme]
    rfl
  lexemes' := by
    rw [textLexemes_eq, meaningful_join codeKind_tells hg' hx hprose', List.map_append,
      List.map_singleton, hlexeme]
    rfl
  data := hdata
  laid := by
    intro more' hmore'
    rw [List.append_assoc, List.singleton_append, textLexemes_eq,
      laid_join codeKind_tells hg' hx hprose' hmore']
    simp [rowLaid, hlexeme]

theorem meaningful_comment {h stop : List Char} {side : Cell → List Char} {rowT rowC : List Cell}
    (hg : IsGap g) (hh : IsGap h) (hprose : Prose .text (rowLaid side rowT))
    (hcomment : Prose .commentText (rowLaid side rowC)) :
    meaningful (textLexemes (g ++ rowText side rowT) ++ (.commentStart, value) ::
        commentLexemes (h ++ rowText side rowC) ++ [(.commentEnd, stop)]) =
      rowT.map Cell.lexeme ++
        (.commentStart, value) :: (rowC.map Cell.lexeme ++ [(.commentEnd, stop)]) := by
  rw [List.append_assoc, List.cons_append, textLexemes_eq, commentLexemes_eq,
    meaningful_join codeKind_tells (x := (.commentStart, value)) hg rfl hprose,
    meaningful_join commentKind_tells (x := (.commentEnd, stop)) hh rfl hcomment, meaningful_nil]

/-- The body of a comment and its end, with other layout. -/
theorem comment_respace {body stop : List Char} (hfit : Fits before (c :: rowR))
    (hkind : c.lexeme.1 = .commentStart)
    (hlaid : laid (commentLexemes body ++ (.commentEnd, stop) :: more) =
      (c.old, rowLaid Cell.old rowR))
    (hbody : Delimiter.commentBody? (c.old ++ rowText Cell.old rowR) = some (body, stop, rest)) :
    ∃ rowC e rowE, rowR = rowC ++ e :: rowE ∧ e.lexeme = (.commentEnd, stop) ∧
      laid more = (e.old, rowLaid Cell.old rowE) ∧ rest = e.old ++ rowText Cell.old rowE ∧
      body = c.old ++ rowText Cell.old rowC ∧ Prose .commentText (rowLaid Cell.old rowC) ∧
      Prose .commentText (rowLaid Cell.new rowC) ∧
      Delimiter.commentBody? (c.new ++ rowText Cell.new rowR) =
        some (c.new ++ rowText Cell.new rowC, stop, e.new ++ rowText Cell.new rowE) := by
  rw [commentLexemes_eq] at hlaid
  obtain ⟨rowC, e, rowE, rfl, hlexeme, hmore, rfl, hg, hprose⟩ :=
    split_pieces commentKind_tells rfl hlaid
  obtain ⟨hjoint, hrest⟩ := hfit
  have hvalue : e.lexeme.2 = stop := congrArg Prod.snd hlexeme
  have hkind' : e.lexeme.1 = .commentEnd := congrArg Prod.fst hlexeme
  have htext : ∀ side : Cell → List Char, side c ++ rowText side (rowC ++ e :: rowE) =
      (side c ++ rowText side rowC) ++ (stop ++ (side e ++ rowText side rowE)) := by
    intro side
    rw [rowText_append, rowText_cons, hvalue, List.append_assoc]
  obtain rfl : rest = e.old ++ rowText Cell.old rowE := by
    have happend := (Delimiter.commentBody?_append hbody).1
    rw [htext] at happend
    exact List.append_cancel_left (List.append_cancel_left happend)
  have hsame := hrest.prose_same hprose rfl rfl (by rw [hkind']; rfl)
  have hnew : ∀ d ∈ rowC, IsGap d.new := fun d hd => hrest.new d (List.mem_append_left _ hd)
  have hfirst : c.old = [] ↔ c.new = [] := by
    have hquiet : quietBehind c.lexeme.1 = true := by rw [hkind]; rfl
    cases rowC with
    | nil => exact hjoint.same hquiet (by rw [hkind']; rfl)
    | cons d rowC => exact hjoint.same hquiet (by rw [show d.lexeme.1 = _ from hprose.1]; rfl)
  have hrelaid : Relaid (c.old ++ rowText Cell.old rowC) (c.new ++ rowText Cell.new rowC) :=
    (Relaid.of_gap hg hjoint.new hfirst).append (relaid_of_prose hprose hnew hsame)
  refine ⟨rowC, e, rowE, rfl, hlexeme, hmore, rfl, rfl, hprose,
    prose_new hprose hnew fun d hd => hsame d ((List.dropLast_sublist rowC).subset hd), ?_⟩
  rw [htext] at hbody ⊢
  exact Delimiter.commentBody?_relaid hrelaid hbody _

/-- A step on template text does the same with other layout. -/
theorem Data.respace (hdata : Data verbatim (g ++ rowText Cell.old row) new frames verbatim' rest)
    (hlaid : TwigStyle.laid (new ++ more) = (g, rowLaid Cell.old row))
    (hlast : rest = [] → more = []) (hfit : Fits before row) (hg' : IsGap g')
    (htag : verbatim = true → frames = [.block none []] → ∀ rowT c rowR,
      row = rowT ++ c :: rowR → laid more = (c.old, rowLaid Cell.old rowR) →
      TagTail (c.old ++ rowText Cell.old rowR) → TagTail (c.new ++ rowText Cell.new rowR)) :
    ∃ rowL rowR h h' new',
      DataRespaced verbatim row g' new more frames verbatim' rest rowL rowR h h' new' := by
  cases hdata with
  | @text b hfind =>
    obtain rfl := hlast rfl
    rw [List.append_nil, textLexemes_eq] at hlaid
    obtain ⟨rfl, hg, hprose⟩ := pieces_row codeKind_tells hlaid
    have hsame : ∀ c ∈ row.dropLast, c.old = [] ↔ c.new = [] := by
      rcases List.eq_nil_or_concat row with rfl | ⟨init, c, rfl⟩
      · exact nofun
      · rw [List.concat_eq_append] at hprose hfit ⊢
        rw [rowLaid, List.map_append] at hprose
        obtain ⟨hinit, hc⟩ := hprose.split
        rw [List.dropLast_concat]
        refine hfit.prose_same hinit rfl rfl ?_
        rw [show c.lexeme.1 = .text from hc.1]
        rfl
    have hprose' := prose_new hprose hfit.new hsame
    have hfind' := Delimiter.find_prose_end hg hg' hprose hfit.new hsame hfind
    refine ⟨row, [], [], [], textLexemes (g' ++ rowText Cell.new row), ?_⟩
    exact {
      row_eq := (List.append_nil row).symm
      more := rfl
      rest := rfl
      gap := isGap_nil
      gap' := isGap_nil
      lexemes := meaningful_pieces_row codeKind_tells hg hprose
      lexemes' := meaningful_pieces_row codeKind_tells hg' hprose'
      data := .text hfind'
      laid := by
        intro more' hmore'
        rw [laid_append (by rw [hmore']), hmore', textLexemes_eq,
          laid_pieces_row codeKind_tells hg' hprose', rowLaid_nil, List.append_nil] }
  | @«variable» b value rest hfind =>
    rw [List.append_assoc, List.singleton_append] at hlaid
    obtain ⟨rowT, c, rowR, rfl, hlexeme, hmore, rfl, rfl, hg, hprose, hprose', hfind'⟩ :=
      find_respace hfind rfl rfl (by decide) hlaid hfit hg' (by simp)
    exact ⟨_, _, _, _, _,
      respaced_open hfit hg hg' hprose hprose' hlexeme rfl hmore (.variable hfind')⟩
  | @block b value rest hfind =>
    rw [List.append_assoc, List.singleton_append] at hlaid
    obtain ⟨rowT, c, rowR, rfl, hlexeme, hmore, rfl, rfl, hg, hprose, hprose', hfind'⟩ :=
      find_respace hfind rfl rfl (by decide) hlaid hfit hg' fun hv _ => htag hv rfl
    exact ⟨_, _, _, _, _,
      respaced_open hfit hg hg' hprose hprose' hlexeme rfl hmore (.block hfind')⟩
  | @comment b value after body stop rest hfind hbody =>
    simp only [List.append_assoc, List.cons_append, List.nil_append] at hlaid
    obtain ⟨rowT, c, rowR, rfl, hlexeme, hmore, rfl, rfl, hg, hprose, hprose', hfind'⟩ :=
      find_respace hfind rfl rfl (by decide) hlaid hfit hg' (by simp)
    have hrest := hfit.append
    obtain ⟨rowC, e, rowE, rfl, hlexeme', hmore', rfl, rfl, hcomment, hcomment', hbody'⟩ :=
      comment_respace hrest (congrArg Prod.fst hlexeme) hmore hbody
    have hold : IsGap c.old := hrest.1.old
    have hnew : IsGap c.new := hrest.1.new
    refine ⟨rowT ++ c :: rowC ++ [e], rowE, e.old, e.new,
      textLexemes (g' ++ rowText Cell.new rowT) ++ (.commentStart, value) ::
        commentLexemes (c.new ++ rowText Cell.new rowC) ++ [(.commentEnd, stop)], ?_⟩
    exact {
      row_eq := by simp
      more := hmore'
      rest := rfl
      gap := hfit.old e (by simp)
      gap' := hfit.new e (by simp)
      lexemes := by
        rw [meaningful_comment hg hold hprose hcomment]
        simp [hlexeme, hlexeme']
      lexemes' := by
        rw [meaningful_comment hg' hnew hprose' hcomment']
        simp [hlexeme, hlexeme']
      data := .comment hfind' hbody'
      laid := by
        intro more'' hmore''
        have h₂ := laid_join commentKind_tells (x := (.commentEnd, stop)) hnew rfl hcomment' hmore''
        have h₁ := laid_join codeKind_tells (x := (.commentStart, value)) hg' rfl hprose' h₂
        simp only [List.append_assoc, List.cons_append, List.nil_append]
        rw [textLexemes_eq, commentLexemes_eq, h₁]
        simp [rowLaid, hlexeme, hlexeme'] }

end Lexer

end TwigStyle
