import TwigStyle.Proofs.Ids
import TwigStyle.Proofs.Peeking

/-!
# A template with other layout

A row that `Fits` has two texts, and what is read in the old one is read in the new one: the same
lexemes, with the new layout between them (`run_respace`).  The proof goes from lexeme to lexeme.
Outside of code a step is repeated by `Data.respace`; in code the layout in front of a lexeme is read
first, and the lexeme itself does not notice what became of the layout behind it.
-/

namespace TwigStyle

variable {g t z : List Char}

namespace Lexer

variable {s : Lexer} {frame : Frame} {outer : List Frame} {c : Char}
  {t : List Char} {lexed : Lexed}

/-! ### Names in the tag that ends a verbatim body -/

theorem punctuation?_eq_none (h : c ∉ "?:,.|([\x7b)]\x7d".toList) :
    s.punctuation? frame outer c = none := by
  simp only [String.reduceToList, List.mem_cons, List.not_mem_nil, or_false, not_or] at h
  simp [punctuation?, BracketShape.ofOpener?, BracketShape.ofCloser?, h]

theorem Reading.of_blank (hblank : Text.isBlank c = true) (hc : Text.isLayout c = false)
    (h : Reading s OperatorTable.default frame outer c t lexed) :
    lexed = nameLexed frame outer c t ∧ Lexeme.startsName c = true := by
  have hno : ∀ w : List Char, (∀ a ∈ w, Text.isBlank a = false) → w ≠ [] → ¬w <+: c :: t := by
    intro w hw hne hpre
    cases w with
    | nil => exact hne rfl
    | cons a w =>
      obtain ⟨rfl, -⟩ := List.cons_prefix_cons.1 hpre
      rw [hw a List.mem_cons_self] at hblank
      cases hblank
  cases h with
  | layout hc' =>
    rw [hc] at hc'
    cases hc'
  | spread _ h =>
    exact absurd ⟨_, (Text.after?_eq_some_iff.1 h).symm⟩ (hno "...".toList (by simp; rfl) (by simp))
  | arrow _ _ h =>
    exact absurd ⟨_, (Text.after?_eq_some_iff.1 h).symm⟩
      (hno "=>".toList (by simp; exact ⟨rfl, rfl⟩) (by simp))
  | operator _ h =>
    obtain ⟨op, hop, r, hr, -⟩ := operator?_start h
    obtain ⟨hne, hwords⟩ := default_proper op hop
    cases hw : op.words with
    | nil => exact absurd hw hne
    | cons w ws =>
      rw [hw] at hwords
      obtain ⟨hw₀, hw₁⟩ := hwords w List.mem_cons_self
      exact absurd (Operator.first_word hr hw) (hno w hw₁ hw₀)
  | name _ _ h => exact ⟨rfl, h⟩
  | number _ _ _ h =>
    rw [Text.not_isBlank_of_isDigit h] at hblank
    cases hblank
  | punctuation _ _ _ _ h =>
    rw [punctuation?_eq_none] at h
    · cases h
    · intro hmem
      have hall : ∀ a ∈ "?:,.|([\x7b)]\x7d".toList, Text.isBlank a = false := by simp; decide
      rw [hall c hmem] at hblank
      cases hblank
  | string _ _ hq | quote _ _ hq =>
    rw [hq] at hblank
    cases hblank

theorem Reading.of_tag {w : List Char} (hw : w = "endverbatim".toList ∨ w = "endraw".toList)
    (hpre : w <+: c :: t) (h : Reading s OperatorTable.default frame outer c t lexed) :
    lexed = nameLexed frame outer c t ∧ Lexeme.startsName c = true := by
  have hother : ∀ w ∈ ["endverbatim", "endraw"].map String.toList,
      OperatorTable.default.operators.all (fun op => op.words.head?.any fun w' =>
        !w'.isPrefixOf w && !w.isPrefixOf w') = true := by
    simp only [List.map_cons, List.map_nil, List.mem_cons, List.not_mem_nil, or_false]
    rintro w (rfl | rfl) <;> decide +kernel
  have hop : s.operator? OperatorTable.default c t = none := by
    refine operator?_eq_none fun op hop => ?_
    have hno := List.all_eq_true.1 (hother w (by simpa using hw)) op hop
    cases hwords : op.words with
    | nil => simp [hwords] at hno
    | cons w' ws =>
      refine ⟨w', ws, rfl, fun hpre' => ?_⟩
      simp only [hwords, List.head?_cons, Option.any_some, Bool.and_eq_true, Bool.not_eq_true',
        Bool.eq_false_iff, ne_eq, List.isPrefixOf_iff_prefix] at hno
      rcases List.prefix_or_prefix_of_prefix hpre' hpre with h | h
      · exact hno.1 h
      · exact hno.2 h
  obtain rfl : c = 'e' := by
    rcases hw with rfl | rfl <;> exact (List.cons_prefix_cons.1 hpre).1.symm
  cases h with
  | layout hc => cases hc
  | spread _ h | arrow _ _ h => cases h
  | operator _ h =>
    rw [hop] at h
    cases h
  | name _ _ h => exact ⟨rfl, h⟩
  | number _ _ hname _ | punctuation _ _ hname _ _ => cases hname
  | string _ _ hq | quote _ _ hq => cases hq

theorem continuesName_of_nameLexed {u r : List Char} (hc : Lexeme.startsName c = true)
    (hmore : (nameLexed frame outer c (u ++ r)).more = u.length) :
    (∀ a ∈ c :: u, Lexeme.continuesName a = true) ∧
      ∀ a ∈ r.head?, Lexeme.continuesName a = false := by
  rw [nameLexed_more, Lexeme.runLength_append_eq_iff] at hmore
  refine ⟨fun a ha => ?_, hmore.2⟩
  rcases List.mem_cons.1 ha with rfl | ha
  · simp [Lexeme.continuesName, hc]
  · exact hmore.1 a ha

end Lexer

theorem TagEnd.blank_of_name {v r : List Char} (h : TagEnd (v ++ r))
    (hv : ∀ a ∈ v, Lexeme.continuesName a = true) : ∀ a ∈ v, Text.isBlank a = true := by
  obtain ⟨r', hr'⟩ := h
  rcases blank_or_split v with hblank | ⟨p, u, rfl, hne, hdrop⟩
  · exact hblank
  · exfalso
    rw [hdrop] at hr'
    cases u with
    | nil => exact hne rfl
    | cons a u =>
      have ha := hv a (by simp)
      rw [List.cons_append, Delimiter.trimMarker] at hr'
      split at hr'
      · rename_i hmarker
        simp only [Delimiter.isTrimMarker, Bool.or_eq_true, beq_iff_eq] at hmarker
        rcases hmarker with rfl | rfl <;> cases ha
      · obtain ⟨rfl, -⟩ := List.cons.inj hr'
        cases ha

theorem tagEnd_append_blank (hz : ∀ a ∈ z, Text.isBlank a = true) : TagEnd (z ++ t) ↔ TagEnd t := by
  unfold TagEnd
  rw [List.dropWhile_append_of_pos hz]

theorem tagTail_append_blank (hz : ∀ a ∈ z, Text.isBlank a = true) :
    TagTail (z ++ t) ↔ TagTail t := by
  unfold TagTail
  rw [List.dropWhile_append_of_pos hz]

theorem IsGap.blank (hg : IsGap g) : ∀ a ∈ g, Text.isBlank a = true :=
  fun a ha => isBlank_of_isLayout (hg a ha)

namespace Lexer

variable {s s₁ s₂ : Lexer} {table : OperatorTable} {frame : Frame} {outer outer' : List Frame}
  {c k : Char} {t u r g g' h : List Char} {lexed : Lexed} {row : List Cell}
  {side : Cell → List Char} {new more before : List Lexeme} {x : Lexeme}
  {rows : List (Lexeme × List Char)} {name : Option (List Char)} {d : Cell}

theorem First.rest (hfirst : First table s frame outer s₁ t g x h rows s₂ c u r lexed more)
    (hrows : rows = rowLaid side row) : r = h ++ rowText side row := by
  obtain ⟨new, hnew, hspell, -⟩ := run_emits hfirst.run
  have hsame : new = more := List.append_cancel_left (hnew.symm.trans hfirst.added)
  rw [← hspell, hsame]
  exact spell_of_laid (by rw [hfirst.laid, hrows])

theorem frames_nameLexed (name : Option (List Char)) (c : Char) (t : List Char) :
    ∃ name', (nameLexed (.block name []) [] c t).frames = [.block name' []] := by
  cases name <;> exact ⟨_, rfl⟩

theorem First.tagEnd
    (hfirst : First OperatorTable.default s (.block name []) [] s₁ t g x h rows s₂ c u r lexed more)
    (htag : TagEnd (c :: u ++ r)) : c :: u ∈ (Frame.block name []).ends ∨
      (∀ a ∈ c :: u, Text.isBlank a = true) ∧ ∃ name', lexed.frames = [.block name' []] := by
  have hlength := hfirst.length
  have hsolid := hfirst.inside.solid nofun hfirst.solid
  cases hfirst.inside with
  | endQuote hq | interpolate hq | literal hq => cases hq
  | close hend =>
    have hv := Frame.mem_ends hend
    simp only at hlength
    rw [hlength, List.take_left] at hv
    exact .inl hv
  | read _ hend h =>
    refine .inr ?_
    rw [Frame.endAt?_eq_none_iff] at hend
    have hno := hend rfl
    cases hblank : Text.isBlank c with
    | false =>
      -- Without a blank in front of it, the end would have been read.
      exfalso
      obtain ⟨r', hr'⟩ := htag
      rw [List.cons_append, List.dropWhile_cons_of_neg (by simp [hblank]), Delimiter.trimMarker]
        at hr'
      split at hr' <;> simp only at hr'
      · rename_i hmarker
        simp only [Delimiter.isTrimMarker, Bool.or_eq_true, beq_iff_eq] at hmarker
        rw [hr'] at hno
        rcases hmarker with rfl | rfl
        · exact hno "-%\x7d".toList (by simp [Frame.ends]) ⟨r', rfl⟩
        · exact hno "~%\x7d".toList (by simp [Frame.ends]) ⟨r', rfl⟩
      · rw [hr'] at hno
        exact hno "%\x7d".toList (by simp [Frame.ends]) ⟨r', rfl⟩
    | true =>
      obtain ⟨rfl, hstart⟩ := h.of_blank hblank hsolid
      obtain ⟨hname, -⟩ := continuesName_of_nameLexed hstart hlength
      exact ⟨htag.blank_of_name hname, frames_nameLexed name c (u ++ r)⟩

theorem tagEnd_respace (hrun : run OperatorTable.default s t = .ok s₁)
    (hframes : s.frames = [.block name []]) (hnew : s₁.emitted = s.emitted ++ new)
    (hlaid : laid new = (g, rowLaid Cell.old row)) (hfit : Fits before row)
    (htag : TagEnd (rowText Cell.old row)) : TagEnd (rowText Cell.new row) := by
  induction row generalizing s t new before name g with
  | nil => exact htag
  | cons d row ih =>
    obtain ⟨s₂, c, u, r, lexed, more, hfirst⟩ := run_first hrun hframes hnew hlaid
    obtain ⟨hjoint, hrest⟩ := hfit
    have hvalue : d.lexeme.2 = c :: u := congrArg Prod.snd hfirst.lexeme
    rw [rowText_cons, hvalue, ← hfirst.rest rfl] at htag
    rw [rowText_cons, hvalue]
    rcases hfirst.tagEnd htag with hend | ⟨hblank, name', hname⟩
    · simp only [Frame.ends, List.mem_cons, List.not_mem_nil, or_false] at hend
      rcases hend with hend | hend | hend <;> rw [hend] <;> exact ⟨_, rfl⟩
    · rw [tagEnd_append_blank hblank, hfirst.rest rfl, tagEnd_append_blank hjoint.old.blank] at htag
      rw [tagEnd_append_blank hblank, tagEnd_append_blank hjoint.new.blank]
      exact ih hfirst.run (by rw [take_frames, hname]) hfirst.added hfirst.laid hrest htag

/-- The tag that ends a verbatim body starts with a name. -/
theorem First.tagTail
    (hfirst : First OperatorTable.default s (.block name []) [] s₁ t g x h rows s₂ c u r lexed more)
    (htag : TagTail (c :: u ++ r)) :
    lexed = nameLexed (.block name []) [] c (u ++ r) ∧ Lexeme.startsName c = true := by
  have hsolid := hfirst.inside.solid nofun hfirst.solid
  have hsign : ∀ {kind : TokenKind} {n : Nat},
      (Frame.block name []).endAt? (c :: (u ++ r)) = some (kind, n) →
      c = '%' ∨ c = '-' ∨ c = '~' := by
    intro kind n hend
    have hv := Frame.mem_ends hend
    simp only [Frame.ends, String.reduceToList, List.mem_cons, List.cons.injEq, List.not_mem_nil,
      or_false] at hv
    rcases hv with ⟨hc, -⟩ | ⟨hc, -⟩ | ⟨hc, -⟩
    · exact .inl hc
    · exact .inr (.inl hc)
    · exact .inr (.inr hc)
  cases hblank : Text.isBlank c with
  | true =>
    cases hfirst.inside with
    | endQuote hq | interpolate hq | literal hq => cases hq
    | close hend => rcases hsign hend with rfl | rfl | rfl <;> cases hblank
    | read _ _ h => exact h.of_blank hblank hsolid
  | false =>
    obtain ⟨w, r₀, hw, htext, -⟩ := htag
    rw [List.cons_append, List.dropWhile_cons_of_neg (by simp [hblank])] at htext
    cases hfirst.inside with
    | endQuote hq | interpolate hq | literal hq => cases hq
    | close hend =>
      rcases hsign hend with rfl | rfl | rfl <;> rcases hw with rfl | rfl <;> cases htext
    | read _ _ h => exact h.of_tag hw ⟨r₀, htext.symm⟩

theorem tagTail_respace (hrun : run OperatorTable.default s t = .ok s₁)
    (hframes : s.frames = [.block name []]) (hnew : s₁.emitted = s.emitted ++ new)
    (hlaid : laid new = (g, rowLaid Cell.old row)) (hfit : Fits before row)
    (htag : TagTail (rowText Cell.old row)) : TagTail (rowText Cell.new row) := by
  induction row generalizing s t new before name g with
  | nil => exact htag
  | cons d row ih =>
    obtain ⟨s₂, c, u, r, lexed, more, hfirst⟩ := run_first hrun hframes hnew hlaid
    obtain ⟨hjoint, hrest⟩ := hfit
    have hvalue : d.lexeme.2 = c :: u := congrArg Prod.snd hfirst.lexeme
    have hlength := hfirst.length
    rw [rowText_cons, hvalue, ← hfirst.rest rfl] at htag
    rw [rowText_cons, hvalue]
    obtain ⟨rfl, hstart⟩ := hfirst.tagTail htag
    obtain ⟨hname, hstop⟩ := continuesName_of_nameLexed hstart hlength
    obtain ⟨name', hname'⟩ := frames_nameLexed name c (u ++ r)
    have hframes' : (s₂.take (.block name []) (nameLexed (.block name []) [] c (u ++ r)) c
        (u ++ r)).frames = [.block name' []] := by rw [take_frames, hname']
    rcases blank_or_split (c :: u) with hblank | ⟨p, v, hpv, hne, hdrop⟩
    · rw [tagTail_append_blank hblank, hfirst.rest rfl, tagTail_append_blank hjoint.old.blank]
        at htag
      rw [tagTail_append_blank hblank, tagTail_append_blank hjoint.new.blank]
      exact ih hfirst.run hframes' hfirst.added hfirst.laid hrest htag
    · obtain ⟨w, r₀, hw, htext, hend⟩ := htag
      rw [hdrop] at htext
      have hletters : ∀ a ∈ w, Lexeme.continuesName a = true := by
        rcases hw with rfl | rfl <;> simp <;> decide
      -- The name does not end inside of the name of the tag.
      obtain ⟨q, rfl, rfl⟩ : ∃ q, v = w ++ q ∧ r₀ = q ++ r := by
        rcases List.append_eq_append_iff.1 htext with ⟨q, rfl, hr⟩ | ⟨q, hv, hr₀⟩
        · cases q with
          | nil => exact ⟨[], by simp, by simpa using hr.symm⟩
          | cons a q =>
            have ha := hstop a (by rw [hr]; rfl)
            rw [hletters a (by simp)] at ha
            cases ha
        · exact ⟨q, hv, hr₀⟩
      have hq : ∀ a ∈ q, Text.isBlank a = true :=
        hend.blank_of_name fun a ha => hname a (by rw [hpv]; simp [ha])
      rw [tagEnd_append_blank hq, hfirst.rest rfl, tagEnd_append_blank hjoint.old.blank] at hend
      have hend' := tagEnd_respace hfirst.run hframes' hfirst.added hfirst.laid hrest hend
      refine ⟨w, q ++ (d.new ++ rowText Cell.new row), hw, ?_, ?_⟩
      · rw [hdrop, List.append_assoc]
      · rwa [tagEnd_append_blank hq, tagEnd_append_blank hjoint.new.blank]

/-! ### What a lexeme needs to know of the next one -/

theorem ends_ne_quote (hends : frame.ends = endWords k) : frame ≠ .quote := by
  rintro rfl
  cases hends

theorem noBrace_of_run (hrun : run OperatorTable.default s t = .ok s₁)
    (hframes : s.frames = frame :: outer) (hnew : s₁.emitted = s.emitted ++ new)
    (hlaid : laid new = (g, rowLaid side row)) (hopen : hasOpenBracket frame.brackets = false)
    (hends : frame.ends = endWords k) : NoBrace k row := by
  cases row with
  | nil => trivial
  | cons d row =>
    obtain ⟨s₂, c, u, r, lexed, more, hfirst⟩ := run_first hrun hframes hnew hlaid
    have hvalue : d.lexeme.2 = c :: u := congrArg Prod.snd hfirst.lexeme
    have hlength := hfirst.length
    have hlong : u = [] → ∀ {kind : TokenKind} {n : Nat},
        frame.endAt? (c :: (u ++ r)) = some (kind, n) → n - 1 = u.length → False := by
      intro hu kind n hend hn
      have hv := Frame.mem_ends hend
      rw [hn, List.take_left, hends, hu] at hv
      simp [endWords] at hv
    refine ⟨fun hbrace => ?_, fun hk' hpercent e he hhead => ?_⟩
    · obtain ⟨rfl, rfl⟩ := List.cons.inj (hvalue.symm.trans hbrace)
      cases hfirst.inside with
      | endQuote hq | interpolate hq | literal hq => exact ends_ne_quote hends hq
      | close hend => exact hlong rfl hend hlength
      | read _ _ h => exact Reading.not_brace hopen h
    · subst hk'
      obtain ⟨rfl, rfl⟩ := List.cons.inj (hvalue.symm.trans hpercent)
      have hsame : lexed.frames = frame :: outer := by
        cases hfirst.inside with
        | endQuote hq | interpolate hq | literal hq => exact absurd hq (ends_ne_quote hends)
        | close hend => exact (hlong rfl hend hlength).elim
        | read _ _ h => exact h.frames_of_sign (.inr (.inr rfl))
      cases row with
      | nil => cases he
      | cons f row =>
        cases he
        obtain ⟨s₃, c', u', r', lexed', more', hnext⟩ :=
          run_first hfirst.run (by rw [take_frames, hsame]) hfirst.added hfirst.laid
        rw [show e.lexeme.2 = c' :: u' from congrArg Prod.snd hnext.lexeme] at hhead
        cases hhead
        cases hnext.inside with
        | endQuote hq | interpolate hq | literal hq => exact ends_ne_quote hends hq
        | close hend =>
          have hv := Frame.mem_ends hend
          rw [hends] at hv
          simp [endWords] at hv
        | read _ _ h => exact Reading.not_brace hopen h

/-- The colon behind a question mark is that of the ternary. -/
theorem First.not_colon {e : Cell}
    (hfirst : First OperatorTable.default s frame outer s₁ t g d.lexeme h
      (rowLaid side (e :: row)) s₂ c u r lexed more)
    (hframe : frame ≠ .quote) (hd : d.lexeme.2 = ['?']) : e.lexeme ≠ (.punctuation, [':']) := by
  obtain ⟨rfl, rfl⟩ := List.cons.inj
    ((congrArg Prod.snd hfirst.lexeme).symm.trans hd : c :: u = ['?'])
  have hlength := hfirst.length
  have hhead : ∀ v ∈ Frame.allEnds, v.head? ≠ some '?' ∧ v.head? ≠ some ':' := by decide
  cases hfirst.inside with
  | endQuote hq | interpolate hq | literal hq => exact absurd hq hframe
  | close hend => exact absurd rfl (hhead _ (Frame.mem_allEnds hend)).1
  | read _ _ hread =>
    obtain ⟨i, line, bs, hframes⟩ := hread.frames_of_question hlength
    obtain ⟨s₃, c', u', r', lexed', more', hnext⟩ :=
      run_first hfirst.run (by rw [take_frames, hframes]) hfirst.added hfirst.laid
    intro he
    obtain ⟨hkind, hvalue⟩ := Prod.mk.inj (hnext.lexeme.symm.trans he)
    obtain ⟨rfl, rfl⟩ := List.cons.inj hvalue
    have hbs : (frame.withBrackets (⟨.ternary, i, line⟩ :: bs)).brackets =
        ⟨.ternary, i, line⟩ :: bs := by
      cases frame <;> first | rfl | exact absurd rfl hframe
    cases hnext.inside with
    | endQuote hq | interpolate hq | literal hq =>
      rw [hq] at hbs
      cases hbs
    | close hend => exact absurd rfl (hhead _ (Frame.mem_allEnds hend)).2
    | read _ _ hread' =>
      rw [hread'.colon hbs] at hkind
      cases hkind

/-! ### Strings -/

theorem punctuation?_frames (h : s.punctuation? frame outer c = some (.ok lexed)) :
    ∃ bs, lexed.frames = frame.withBrackets bs :: outer := by
  cases Marks.of_ok h with
  | colon | other => exact ⟨frame.brackets, by cases frame <;> rfl⟩
  | question | answer | comma | opener | closer => exact ⟨_, rfl⟩

theorem Inside.quietBehind_of_quote (h : Inside s table frame outer c t lexed)
    (hq : lexed.frames.head? = some .quote) : quietBehind lexed.kind = true := by
  cases h with
  | endQuote | interpolate | literal => rfl
  | close hend => rcases endAt?_kind hend with hk | hk | hk <;> simp only [hk] <;> rfl
  | read hframe _ h =>
    cases h with
    | layout hc => cases (Lexeme.layoutAt c t).1 <;> rfl
    | operator => exact absurd (Option.some.inj hq) hframe
    | name => rcases nameLexed_kind frame outer c t with hk | hk <;> rw [hk] <;> rfl
    | punctuation _ _ _ _ h =>
      obtain ⟨bs, hbs⟩ := punctuation?_frames h
      rw [hbs] at hq
      cases frame <;> first | exact absurd rfl hframe | cases hq
    | spread | arrow | number | string | quote => rfl

theorem Inside.quietInFront_of_quote (h : Inside s table .quote outer c t lexed) :
    quietInFront lexed.kind = true := by
  cases h with
  | endQuote | interpolate | literal => rfl
  | close hend => simp [Frame.endAt?] at hend
  | read hframe => exact absurd rfl hframe

theorem First.gap_of_quote
    (hfirst : First table s frame outer s₁ t g d.lexeme d.old (rowLaid Cell.old row) s₂ c u r
      lexed more)
    (hend : s₁.frames = []) (hjoint : Joint before d row) (hq : lexed.frames = .quote :: outer') :
    d.new = [] ∧ ∃ e rest, row = e :: rest ∧ ∃ s₃ c' u' r' lexed' more',
      First table (s₂.take frame lexed c (u ++ r)) .quote outer' s₁ r [] e.lexeme e.old
        (rowLaid Cell.old rest) s₃ c' u' r' lexed' more' := by
  have hframes : (s₂.take frame lexed c (u ++ r)).frames = .quote :: outer' := by
    rw [take_frames, hq]
  cases row with
  | nil =>
    have := run_layout_frames hfirst.run hframes hfirst.added hfirst.laid
    rw [hend] at this
    cases this
  | cons e row =>
    obtain ⟨s₃, c', u', r', lexed', more', hnext⟩ :=
      run_first hfirst.run hframes hfirst.added hfirst.laid
    have hold : d.old = [] := hnext.quote rfl
    have hbehind : quietBehind d.lexeme.1 = true := by
      rw [hfirst.lexeme]
      exact hfirst.inside.quietBehind_of_quote (by rw [hq]; rfl)
    have hfront : quietInFront e.lexeme.1 = true := by
      rw [hnext.lexeme]
      exact hnext.inside.quietInFront_of_quote
    rw [hold] at hnext
    exact ⟨(hjoint.same hbehind hfront).1 hold, e, row, rfl, s₃, c', u', r', lexed', more', hnext⟩

theorem First.endsLiteral
    (hfirst : First table s .quote outer s₁ t g d.lexeme d.old (rowLaid Cell.old row) s₂ c u r
      lexed more)
    (hend : s₁.frames = []) (hjoint : Joint before d row) (hkind : lexed.kind = .string) :
    Lexeme.EndsLiteral r ∧ Lexeme.EndsLiteral (d.new ++ rowText Cell.new row) := by
  have hlength := hfirst.length
  cases hfirst.inside with
  | endQuote | interpolate => cases hkind
  | close hend => simp [Frame.endAt?] at hend
  | read hframe => exact absurd rfl hframe
  | literal _ hc ht =>
    obtain ⟨hnew, e, rest, rfl, s₃, c', u', r', lexed', more', hnext⟩ :=
      hfirst.gap_of_quote hend hjoint rfl
    have hr : r = c' :: (u' ++ r') := hnext.text
    have hstop : Lexeme.EndsLiteral r := by
      have hpos := Lexeme.literalLength_pos hc ht
      have hdrop := Lexeme.drop_literalLength (c :: (u ++ r))
      have hn : Lexeme.literalLength (c :: (u ++ r)) = u.length + 1 := by
        simp only at hlength
        omega
      rw [hn, List.drop_succ_cons, List.drop_left, hr] at hdrop
      rw [hr]
      rcases hdrop with hdrop | hdrop
      · cases hdrop
      · exact hdrop
    refine ⟨hstop, ?_⟩
    have hlength' := hnext.length
    rw [hnew, List.nil_append, rowText_cons,
      show e.lexeme.2 = c' :: u' from congrArg Prod.snd hnext.lexeme]
    rw [hr] at hstop
    cases hnext.inside with
    | endQuote _ hc' =>
      subst hc'
      exact .inl rfl
    | interpolate _ hc' ht' =>
      subst hc'
      obtain ⟨a, rfl⟩ := List.length_eq_one_iff.1 hlength'.symm
      obtain rfl : a = '\x7b' := by simpa using ht'
      exact .inr rfl
    | literal _ hc' ht' =>
      rcases hstop with hstop | hstop
      · exact absurd (Option.some.inj hstop) hc'
      · exfalso
        rw [List.take_succ_cons] at hstop
        obtain ⟨rfl, hstop⟩ := List.cons.inj hstop
        refine ht' ⟨rfl, ?_⟩
        cases hu : u' ++ r' with
        | nil =>
          rw [hu] at hstop
          cases hstop
        | cons a t =>
          rw [hu] at hstop
          cases hstop
          rfl
    | close hend' => simp [Frame.endAt?] at hend'
    | read hframe => exact absurd rfl hframe

/-! ### Runs -/

theorem Alike.symm (h : Alike s s') : Alike s' s :=
  ⟨h.frames.symm, h.verbatim.symm, h.access.symm⟩

theorem endsAccess_congr {ls ls' ms ms' : List Lexeme} (h : endsAccess ls = endsAccess ls')
    (hms : meaningful ms = meaningful ms') : endsAccess (ls ++ ms) = endsAccess (ls' ++ ms') := by
  rw [endsAccess_append ms h]
  unfold endsAccess
  rw [meaningful_append, meaningful_append, hms]

theorem take_congr (r' : List Char) (hlength : lexed.more = u.length) :
    s.take frame lexed c (u ++ r) = s.take frame lexed c (u ++ r') := by
  unfold take
  rw [hlength, List.take_left, List.take_left]

/-- A run outside of constructs starts with template text. -/
theorem run_of_data (hframes : s.frames = []) (hne : t ≠ []) (hrun : run table s t = .ok s₁) :
    ∃ s₂ new rest, Data s.verbatim t new s₂.frames s₂.verbatim rest ∧
      s₂.emitted = s.emitted ++ new ∧ run table s₂ rest = .ok s₁ ∧ rest.length < t.length := by
  cases t with
  | nil => exact absurd rfl hne
  | cons c t =>
    cases hstep : s.step table c t with
    | error e =>
      rw [run_error hstep] at hrun
      cases hrun
    | ok p =>
      obtain ⟨s₂, rest⟩ := p
      have hle := step_rest_le hstep
      rw [run_cons hstep] at hrun
      rw [step_of_data hframes] at hstep
      obtain ⟨new, hdata, hnew⟩ := data_of_ok hframes hstep
      exact ⟨s₂, new, rest, hdata, hnew, hrun, Nat.lt_succ_of_le hle⟩

/-- Template text is read by a run outside of constructs. -/
theorem run_data (table : OperatorTable) {frames : List Frame} {verbatim : Bool} {rest : List Char}
    (hframes : s.frames = [])
    (hdata : Data s.verbatim t new frames verbatim rest) :
    ∃ s₂, run table s t = run table s₂ rest ∧ s₂.emitted = s.emitted ++ new ∧ s₂.frames = frames ∧
      s₂.verbatim = verbatim := by
  cases t with
  | nil =>
    cases hdata with
    | text hfind =>
      cases hfind
      exact ⟨s, rfl, by simp [textLexemes, Lexeme.layoutPieces], hframes, rfl⟩
    | «variable» hfind | block hfind | comment hfind => cases hfind
  | cons c t =>
    obtain ⟨s₂, hs₂, hnew, hframes₂, hverbatim₂⟩ := hdata.ok hframes
    exact ⟨s₂, run_cons ((step_of_data hframes).trans hs₂), hnew, hframes₂, hverbatim₂⟩

/-- Two states that read alike, one in front of the old text of a row and one in front of the new
    one.  The run over the old text ends outside of constructs. -/
structure Respacing (s s' s₁ : Lexer) (t g g' : List Char) (before : List Lexeme) (row : List Cell)
    (new : List Lexeme) : Prop where
  alike : Alike s s'
  run : run OperatorTable.default s t = .ok s₁
  closed : s₁.frames = []
  added : s₁.emitted = s.emitted ++ new
  laid : laid new = (g, rowLaid Cell.old row)
  front : meaningful s.emitted = before.reverse
  fits : Fits before row
  gap : IsGap g'
  quote : s.frames.head? = some .quote → g' = []

/-- One step further in both texts: the rest of the row and what was read of the new text. -/
structure Advance (s' s₁ : Lexer) (t g' : List Char) (row : List Cell) (s₂ s₂' : Lexer)
    (t₂ h h' : List Char) (before₂ : List Lexeme) (row₂ : List Cell) (more fresh : List Lexeme) :
    Prop where
  next : Respacing s₂ s₂' s₁ t₂ h h' before₂ row₂ more
  length : t₂.length < t.length
  run : Lexer.run OperatorTable.default s' (g' ++ rowText Cell.new row) =
    Lexer.run OperatorTable.default s₂' (h' ++ rowText Cell.new row₂)
  emitted : s₂'.emitted = s'.emitted ++ fresh
  laid : ∀ ms, TwigStyle.laid ms = (h', rowLaid Cell.new row₂) →
    TwigStyle.laid (fresh ++ ms) = (g', rowLaid Cell.new row)

variable {s' : Lexer}

theorem Respacing.text (hs : Respacing s s' s₁ t g g' before row new) (hframes : s.frames = [])
    (hne : t ≠ []) : ∃ s₂ s₂' t₂ h h' before₂ row₂ more fresh,
      Advance s' s₁ t g' row s₂ s₂' t₂ h h' before₂ row₂ more fresh := by
  have hframes' : s'.frames = [] := by simpa [hframes] using hs.alike.frames.symm
  obtain ⟨s₂, new₁, rest, hdata, hnew₁, hrun₂, hlt⟩ := run_of_data hframes hne hs.run
  obtain ⟨more, hmore, hspell, -⟩ := run_emits hrun₂
  obtain rfl : new = new₁ ++ more := by
    have := hs.added
    rw [hmore, hnew₁, List.append_assoc] at this
    exact (List.append_cancel_left this).symm
  obtain rfl : t = g ++ rowText Cell.old row := by
    obtain ⟨new₂, hnew₂, hspell₂, -⟩ := run_emits hs.run
    rw [← hspell₂, ← List.append_cancel_left (hs.added.symm.trans hnew₂)]
    exact spell_of_laid hs.laid
  have hlast : rest = [] → more = [] := by
    rintro rfl
    rw [Lexer.run] at hrun₂
    cases hrun₂
    simpa using hmore
  have htag : s.verbatim = true → s₂.frames = [.block none []] → ∀ rowT c rowR,
      row = rowT ++ c :: rowR → TwigStyle.laid more = (c.old, rowLaid Cell.old rowR) →
      TagTail (c.old ++ rowText Cell.old rowR) → TagTail (c.new ++ rowText Cell.new rowR) := by
    rintro - hblock rowT c rowR rfl hlaid htail
    obtain ⟨hjoint, hrest⟩ := hs.fits.append
    rw [tagTail_append_blank hjoint.old.blank] at htail
    rw [tagTail_append_blank hjoint.new.blank]
    exact tagTail_respace hrun₂ hblock hmore hlaid hrest htail
  obtain ⟨rowL, rowR, h, h', new', hD⟩ := hdata.respace hs.laid hlast hs.fits hs.gap htag
  have hdata' := hD.data
  rw [hs.alike.verbatim] at hdata'
  obtain ⟨s₂', hrun', hemitted', hframes₂', hverbatim₂'⟩ := run_data _ hframes' hdata'
  refine ⟨s₂, s₂', rest, h, h', (rowL.map Cell.lexeme).reverse ++ before, rowR, more, new', ?_⟩
  exact {
    next := {
      alike := by
        refine ⟨by rw [hframes₂'], hverbatim₂'.symm, ?_⟩
        rw [hnew₁, hemitted']
        exact endsAccess_congr hs.alike.access (hD.lexemes.trans hD.lexemes'.symm)
      run := hrun₂
      closed := hs.closed
      added := hmore
      laid := hD.more
      front := by simp [hnew₁, hs.front, hD.lexemes]
      fits := Fits.append (hD.row_eq ▸ hs.fits)
      gap := hD.gap'
      quote := by
        intro hq
        generalize s₂.frames = frames, s₂.verbatim = verbatim at hdata hq
        cases hdata <;> cases hq }
    length := hlt
    run := hrun'
    emitted := hemitted'
    laid := hD.laid }

/-- A lexeme in code does not notice what became of the layout behind it. -/
theorem First.respace
    (hfirst : First OperatorTable.default s frame outer s₁ t g d.lexeme d.old
      (rowLaid Cell.old row) s₂ c u r lexed more)
    (hend : s₁.frames = []) (hfront : meaningful s.emitted = before.reverse)
    (hfit : Fits before (d :: row))
    (hbrace : hasOpenBracket frame.brackets = false → ∀ k, frame.ends = endWords k →
      NoBrace k (d :: row)) :
    Inside s₂ OperatorTable.default frame outer c (u ++ (d.new ++ rowText Cell.new row)) lexed := by
  have hr := hfirst.rest rfl
  have hvalue : d.lexeme.2 = c :: u := congrArg Prod.snd hfirst.lexeme
  have hnames : s₂.namesAttribute = endsAccess before.reverse := by
    rw [namesAttribute_eq, endsAccess, hfirst.emitted, hfront, endsAccess, ← hfront]
    congr 1
    simp [meaningful]
  refine Inside.transfer default_proper ?_ ?_ ?_ hfirst.inside hfirst.length
  · intro hframe
    have hsolid := hfirst.inside.solid hframe hfirst.solid
    rw [hnames, hr, ← hvalue]
    refine hfit.transfer (by rw [hvalue]; exact hsolid) fun hd e he => ?_
    cases row with
    | nil => cases he
    | cons f row =>
      cases he
      exact hfirst.not_colon hframe hd
  · intro hno
    have hstop := hfit.stop ?_ (show frame.endAt? _ = none by rwa [hvalue, ← hr])
    · rwa [hvalue] at hstop
    · intro hopen k hends
      refine ⟨hbrace hopen k hends, fun hmarker => ?_⟩
      have hsame : lexed.frames = frame :: outer := by
        rw [hvalue, List.head?_cons, Option.any_some] at hmarker
        simp only [Delimiter.isTrimMarker, Bool.or_eq_true, beq_iff_eq] at hmarker
        cases hfirst.inside with
        | endQuote hq | interpolate hq | literal hq => exact absurd hq (ends_ne_quote hends)
        | close hend' =>
          rw [hno] at hend'
          cases hend'
        | read _ _ hread => exact hread.frames_of_sign (hmarker.imp_right .inl)
      exact noBrace_of_run hfirst.run (by rw [take_frames, hsame]) hfirst.added hfirst.laid hopen
        hends
  · intro hframe hkind
    subst hframe
    exact hfirst.endsLiteral hend hfit.1 hkind

theorem run_gap_of_first (table : OperatorTable) {frame' : Frame} (hg' : IsGap g')
    (hframes : s.frames = frame' :: outer') (hquote : frame' = .quote → g' = [])
    (hsolid : frame' ≠ .quote → ∀ a ∈ t.head?, Text.isLayout a = false) :
    ∃ s₂ lay, run table s (g' ++ t) = run table s₂ t ∧ Alike s s₂ ∧
      s₂.emitted = s.emitted ++ lay ∧ (∀ l ∈ lay, Lexeme.isLayout l = true) ∧ spell lay = g' := by
  by_cases hframe : frame' = .quote
  · exact ⟨s, [], by rw [hquote hframe]; rfl, ⟨rfl, rfl, rfl⟩, by simp, nofun,
      (hquote hframe).symm⟩
  · obtain ⟨s₂, lay, hrun, -, halike, hemitted, hlay, hspell⟩ :=
      run_gap hg' hframes hframe (hsolid hframe)
    exact ⟨s₂, lay, hrun, halike, hemitted, hlay, hspell⟩

theorem Respacing.code (hs : Respacing s s' s₁ t g g' before row new)
    (hframes : s.frames = frame :: outer) : ∃ s₂ s₂' t₂ h h' before₂ row₂ more fresh,
      Advance s' s₁ t g' row s₂ s₂' t₂ h h' before₂ row₂ more fresh := by
  cases row with
  | nil =>
    have hopen := run_layout_frames hs.run hframes hs.added hs.laid
    rw [hs.closed] at hopen
    cases hopen
  | cons d row =>
    obtain ⟨s₂, c, u, r, lexed, more, hfirst⟩ := run_first hs.run hframes hs.added hs.laid
    have hvalue : d.lexeme.2 = c :: u := congrArg Prod.snd hfirst.lexeme
    have hinside := hfirst.respace hs.closed hs.front hs.fits fun hopen k hends =>
      noBrace_of_run hs.run hframes hs.added hs.laid hopen hends
    -- The layout in front.
    obtain ⟨frame', outer', hframes', hbare⟩ : ∃ frame' outer', s'.frames = frame' :: outer' ∧
        frame.bare = frame'.bare := by
      have hbare := hs.alike.frames
      cases hs' : s'.frames with
      | nil => simp [hframes, hs'] at hbare
      | cons f fs =>
        rw [hframes, hs'] at hbare
        exact ⟨f, fs, rfl, (List.cons.inj hbare).1⟩
    have hq : frame' = .quote → frame = .quote := by
      intro h
      rw [← Frame.bare_eq_quote_iff, hbare, Frame.bare_eq_quote_iff]
      exact h
    obtain ⟨s₂', lay, hrun', halike', hemitted', hlay, hspell⟩ :=
      run_gap_of_first OperatorTable.default
        (t := c :: (u ++ (d.new ++ rowText Cell.new row))) hs.gap hframes'
        (fun h => hs.quote (by rw [hframes, hq h]; rfl))
        (fun h a ha => by
          cases ha
          exact hfirst.inside.solid
            (fun hf => h (by rwa [← Frame.bare_eq_quote_iff, ← hbare, Frame.bare_eq_quote_iff]))
            hfirst.solid)
    -- The lexeme.
    have halike : Alike s₂ s₂' := (hfirst.alike.symm.trans hs.alike).trans halike'
    obtain ⟨s₃', fresh, hstep', halike₃, hfresh, hfresh'⟩ :=
      step_alike halike (step_of_inside hfirst.frames hinside)
    rw [hfirst.length, List.drop_left] at hstep'
    obtain rfl : fresh = [d.lexeme] := by
      rw [emitted_take, hfirst.length, List.take_left] at hfresh
      rw [hfirst.lexeme]
      exact (List.append_cancel_left hfresh).symm
    rw [take_congr r hfirst.length] at halike₃
    have hsolid : Lexeme.isLayout d.lexeme = false := by
      rw [hfirst.lexeme]
      exact hfirst.solid
    refine ⟨s₂.take frame lexed c (u ++ r), s₃', r, d.old, d.new, d.lexeme :: before, row, more,
      lay ++ [d.lexeme], ?_⟩
    exact {
      next := {
        alike := halike₃
        run := hfirst.run
        closed := hs.closed
        added := hfirst.added
        laid := hfirst.laid
        front := by
          rw [emitted_take, hfirst.length, List.take_left, ← hfirst.lexeme, meaningful_append,
            hfirst.emitted, hs.front, meaningful_eq_laid [d.lexeme], laid_cons_solid hsolid]
          simp
        fits := hs.fits.2
        gap := hs.fits.1.new
        quote := by
          rw [take_frames]
          intro hq
          obtain ⟨outer', houter'⟩ := List.head?_eq_some_iff.1 hq
          exact (hfirst.gap_of_quote hs.closed hs.fits.1 houter').1 }
      length := by
        rw [hfirst.text]
        simp
        omega
      run := by rw [rowText_cons, hvalue, List.cons_append, hrun', run_cons hstep']
      emitted := by rw [hfresh', hemitted', List.append_assoc]
      laid := by
        intro ms hms
        rw [List.append_assoc, laid_append_of_layout hlay, List.singleton_append,
          laid_cons_solid hsolid, hms, hspell, List.append_nil]
        rfl }

/-- **The new text of a row that fits is read like the old one.** -/
theorem run_respace (hs : Respacing s s' s₁ t g g' before row new) :
    ∃ s₁' new', run OperatorTable.default s' (g' ++ rowText Cell.new row) = .ok s₁' ∧
      s₁'.frames = [] ∧ s₁'.emitted = s'.emitted ++ new' ∧
      laid new' = (g', rowLaid Cell.new row) := by
  induction hn : t.length using Nat.strongRecOn generalizing s s' t g g' before row new with
  | ind n ih =>
    by_cases hne : t = []
    · -- Nothing is left but layout at the end.
      subst hne
      have hrun := hs.run
      rw [run] at hrun
      obtain rfl := Except.ok.inj hrun
      have hframes' : s'.frames = [] := by simpa [hs.closed] using hs.alike.frames.symm
      obtain rfl : new = [] := by simpa using hs.added
      obtain ⟨rfl, hrow⟩ := Prod.mk.inj hs.laid
      obtain rfl : row = [] := by
        cases row with
        | nil => rfl
        | cons d row => cases hrow
      obtain ⟨s₁', hrun', hemitted', hframes₁, -⟩ :=
        run_data OperatorTable.default hframes' (.text (Delimiter.find_layout _ hs.gap))
      refine ⟨s₁', textLexemes g', ?_, hframes₁, hemitted', ?_⟩
      · rw [rowText_nil, List.append_nil, hrun', run]
      · have hnil : laid (pieceLexemes Lexeme.LayoutClass.codeKind (g' ++ rowText Cell.new [])) =
            (g', rowLaid Cell.new []) := laid_pieces_row codeKind_tells hs.gap trivial
        rwa [rowText_nil, List.append_nil, ← textLexemes_eq] at hnil
    · obtain ⟨s₂, s₂', t₂, h, h', before₂, row₂, more, fresh, hnext⟩ :
          ∃ s₂ s₂' t₂ h h' before₂ row₂ more fresh,
            Advance s' s₁ t g' row s₂ s₂' t₂ h h' before₂ row₂ more fresh := by
        cases hframes : s.frames with
        | nil => exact hs.text hframes hne
        | cons frame outer => exact hs.code hframes
      obtain ⟨s₁', new', hrun', hframes', hemitted', hlaid'⟩ :=
        ih t₂.length (by rw [← hn]; exact hnext.length) hnext.next rfl
      refine ⟨s₁', fresh ++ new', by rw [hnext.run, hrun'], hframes', ?_, hnext.laid new' hlaid'⟩
      rw [hemitted', hnext.emitted, List.append_assoc]

end Lexer

/-- **A template with other layout.** The new text of a row that fits is cut into the lexemes of the
    row, with the new layout between them. -/
theorem tokenize_respace {source g' : List Char} {t : Template} {ls : List Lexeme}
    {row : List Cell} (ht : tokenize OperatorTable.default source = .ok t)
    (hls : t.stream.lexemes = ls ++ [(.eof, [])]) (hlaid : laid ls = (g, rowLaid Cell.old row))
    (hfit : Fits [] row) (hg' : IsGap g') :
    ∃ t' ls', tokenize OperatorTable.default (g' ++ rowText Cell.new row) = .ok t' ∧
      t'.stream.lexemes = ls' ++ [(.eof, [])] ∧ laid ls' = (g', rowLaid Cell.new row) := by
  obtain ⟨s, hrun, hframes, rfl⟩ := tokenize_eq_ok_iff.1 ht
  have hemitted : s.emitted = ls := by
    have h : (s.emit .eof []).emitted = ls ++ [(.eof, [])] := hls
    rw [Lexer.emitted_emit] at h
    exact List.append_cancel_right h
  have hs : Lexer.Respacing {} {} s source g g' [] row ls := {
    alike := ⟨rfl, rfl, rfl⟩
    run := hrun
    closed := hframes
    added := by simp [hemitted]
    laid := hlaid
    front := rfl
    fits := hfit
    gap := hg'
    quote := nofun }
  obtain ⟨s', ls', hrun', hframes', hemitted', hlaid'⟩ := Lexer.run_respace hs
  refine ⟨_, ls', tokenize_eq_ok_iff.2 ⟨s', hrun', hframes', rfl⟩, ?_, hlaid'⟩
  change (s'.emit .eof []).emitted = _
  rw [Lexer.emitted_emit, hemitted']
  rfl

end TwigStyle
