import TwigStyle.Proofs.Alike
import TwigStyle.Proofs.Gaps
import TwigStyle.Proofs.Nesting

/-!
# Brackets

Every opening bracket of a tokenized template is joined to the closing bracket of the same shape
that ends its pair, pairs do not cross, and what stands between two partners is a whole piece of
code: `tokenize_wellBracketed`.

The invariant that carries the lexer is `Pending`: what was emitted so far is nested up to the
constructs and brackets that are still open, and these are the ones its frames know
(`Lexer.Paired`).  A ternary's `?` is not among them, which is why it does not matter when the lexer
forgets one.
-/

namespace TwigStyle

/-! ### What is open -/

/-- Something that was opened and not closed yet. -/
inductive Opening where
  | bracket (shape : BracketShape) (index : Nat)
  /-- A construct that the kind `stop` will end. -/
  | enclosure (stop : TokenKind) (inner : Zone)

/-- The zone in which the next token stands. -/
def zoneIn : List Opening → Zone
  | [] => .template
  | .bracket _ _ :: _ => .code
  | .enclosure _ inner :: _ => inner

/-- Tokens that are nested up to the given openings, innermost first. -/
inductive Pending : List Opening → List Token → Prop
  | closed {ts : List Token} (hts : Nested .template 0 ts) : Pending [] ts
  | bracket {os : List Opening} {ts us : List Token} {t : Token} {shape : BracketShape}
      (h : Pending os ts) (hzone : zoneIn os = .code) (hopens : t.Opens shape)
      (hus : Nested .code (ts.length + 1) us) :
    Pending (.bracket shape ts.length :: os) (ts ++ t :: us)
  | enclosure {os : List Opening} {ts us : List Token} {t : Token} {stop : TokenKind} {inner : Zone}
      (h : Pending os ts) (henclose : Encloses (zoneIn os) t.kind stop inner)
      (hrelated : t.related = none) (hus : Nested inner (ts.length + 1) us) :
    Pending (.enclosure stop inner :: os) (ts ++ t :: us)

theorem modify_append_cons (us vs : List Token) (t : Token) (f : Token → Token) :
    (us ++ t :: vs).modify us.length f = us ++ f t :: vs := by
  induction us with
  | nil => rfl
  | cons u us ih => simpa using ih

namespace Pending

variable {os : List Opening} {ts us : List Token} {t : Token}

theorem append (h : Pending os ts) (hus : Nested (zoneIn os) ts.length us) :
    Pending os (ts ++ us) := by
  cases h with
  | closed hts =>
    refine .closed (hts.append ?_)
    rwa [Nat.zero_add]
  | @bracket os ts vs t shape h hzone hopens hvs =>
    rw [List.append_assoc, List.cons_append]
    refine .bracket h hzone hopens (hvs.append ?_)
    rwa [List.length_append, List.length_cons, Nat.add_comm vs.length, ← Nat.add_assoc] at hus
  | @enclosure os ts vs t stop inner h henclose hrelated hvs =>
    rw [List.append_assoc, List.cons_append]
    refine .enclosure h henclose hrelated (hvs.append ?_)
    rwa [List.length_append, List.length_cons, Nat.add_comm vs.length, ← Nat.add_assoc] at hus

theorem close {stop : TokenKind} {inner : Zone} (h : Pending (.enclosure stop inner :: os) ts)
    (hkind : t.kind = stop) (hrelated : t.related = none) : Pending os (ts ++ [t]) := by
  cases h with
  | enclosure h henclose hrelated' hus =>
    rw [List.append_assoc, List.cons_append]
    subst hkind
    exact h.append (.enclose henclose hrelated' hrelated hus)

theorem closeBracket {shape : BracketShape} {i : Nat} (h : Pending (.bracket shape i :: os) ts)
    (hcloses : t.Closes shape) :
    Pending os (((ts ++ [t]).modify i fun t => { t with related := some ts.length }).modify
      ts.length fun t => { t with related := some i }) := by
  cases h with
  | @bracket os ts vs u shape h hzone hopens hvs =>
    have hlength : (ts ++ u :: vs).length = ts.length + vs.length + 1 := by
      simp only [List.length_append, List.length_cons]
      omega
    have hfirst : (ts ++ u :: vs ++ [t]).modify ts.length
        (fun t => { t with related := some (ts ++ u :: vs).length }) =
          (ts ++ { u with related := some (ts.length + vs.length + 1) } :: vs) ++ [t] := by
      rw [List.append_assoc, List.cons_append, modify_append_cons, hlength, List.append_assoc,
        List.cons_append]
    have hlength' : (ts ++ u :: vs).length =
        (ts ++ { u with related := some (ts.length + vs.length + 1) } :: vs).length := by simp
    rw [hfirst, hlength', modify_append_cons, List.append_assoc, List.cons_append]
    refine h.append ?_
    rw [hzone]
    exact .bracket hopens hcloses rfl rfl hvs

end Pending

/-- The brackets among what is open in an expression. -/
def openBrackets (bs : List OpenBracket) : List Opening :=
  (bs.filter (·.shape != .ternary)).map fun b => .bracket b.shape b.index

@[simp]
theorem openBrackets_dropTernaries (bs : List OpenBracket) :
    openBrackets (dropTernaries bs) = openBrackets bs := by
  induction bs with
  | nil => rfl
  | cons b bs ih =>
    by_cases hb : b.shape = .ternary
    · simpa [openBrackets, dropTernaries, hb] using ih
    · simp [dropTernaries, hb]

theorem openBrackets_cons {b : OpenBracket} (hb : b.shape ≠ .ternary) (bs : List OpenBracket) :
    openBrackets (b :: bs) = .bracket b.shape b.index :: openBrackets bs := by
  simp [openBrackets, hb]

theorem openBrackets_eq_nil {bs : List OpenBracket} (h : hasOpenBracket bs = false) :
    openBrackets bs = [] := by
  simp only [hasOpenBracket, List.any_eq_false] at h
  simpa [openBrackets] using h

namespace Frame

variable {frame : Frame}

/-- How a construct ends and what stands in it. -/
def enclosure : Frame → Opening
  | .variable _ => .enclosure .variableEnd .code
  | .block _ _ => .enclosure .blockEnd .code
  | .quote => .enclosure .quoteEnd .quoted
  | .interpolation _ => .enclosure .interpolationEnd .code

/-- What is open in a construct, innermost first, and the construct itself. -/
def openings (frame : Frame) : List Opening := openBrackets frame.brackets ++ [frame.enclosure]

theorem openings_withBrackets (hframe : frame ≠ .quote) (bs : List OpenBracket) :
    (frame.withBrackets bs).openings = openBrackets bs ++ [frame.enclosure] := by
  cases frame <;> first | rfl | exact absurd rfl hframe

theorem withBrackets_brackets (frame : Frame) : frame.withBrackets frame.brackets = frame := by
  cases frame <;> rfl

theorem zoneIn_openings (hframe : frame ≠ .quote) (os : List Opening) :
    zoneIn (frame.openings ++ os) = .code := by
  unfold openings
  cases hbs : openBrackets frame.brackets with
  | nil => cases frame <;> first | rfl | exact absurd rfl hframe
  | cons o bs =>
    have hmem : o ∈ openBrackets frame.brackets := by simp [hbs]
    obtain ⟨b, -, rfl⟩ := List.mem_map.1 hmem
    rfl

theorem openings_of_endAt? {t : List Char} {kind : TokenKind} {n : Nat}
    (h : frame.endAt? t = some (kind, n)) : frame.openings = [.enclosure kind .code] := by
  unfold endAt? at h
  split at h
  · cases h
  · rename_i hopen
    rw [openings, openBrackets_eq_nil (Bool.eq_false_iff.2 hopen), List.nil_append]
    cases frame with
    | «variable» _ | block _ _ =>
      obtain ⟨_, _, hpair⟩ := Option.map_eq_some_iff.1 h
      cases hpair
      rfl
    | quote => cases h
    | interpolation _ =>
      simp only at h
      split at h
      · cases h
        rfl
      · cases h

end Frame

/-- What is open in all constructs. -/
def openings (frames : List Frame) : List Opening := frames.flatMap Frame.openings

@[simp]
theorem openings_cons (frame : Frame) (outer : List Frame) :
    openings (frame :: outer) = frame.openings ++ openings outer := rfl

/-! ### What punctuation does -/

namespace Lexer

variable {s s' : Lexer} {table : OperatorTable} {frame : Frame} {outer : List Frame} {c : Char}
  {t rest : List Char} {lexed : Lexed} {os : List Opening} {kind : TokenKind} {inner : Zone}

/-- The three things punctuation can do to what is open. -/
inductive Punctuates (s : Lexer) (frame : Frame) (outer : List Frame) (c : Char) : Lexed → Prop
  | keep {kind : TokenKind} {bs : List OpenBracket} (hkind : kind = .operator ∨ kind = .punctuation)
      (hopener : BracketShape.ofOpener? c = none) (hcloser : BracketShape.ofCloser? c = none)
      (hbs : openBrackets bs = openBrackets frame.brackets) :
    Punctuates s frame outer c ⟨kind, 0, frame.withBrackets bs :: outer, none⟩
  | opener {shape : BracketShape} (h : BracketShape.ofOpener? c = some shape) :
    Punctuates s frame outer c
      ⟨.punctuation, 0, frame.withBrackets (s.openHere shape :: frame.brackets) :: outer, none⟩
  | closer {b : OpenBracket} {bs : List OpenBracket}
      (h : BracketShape.ofCloser? c = some b.shape) (hbs : dropTernaries frame.brackets = b :: bs) :
    Punctuates s frame outer c ⟨.punctuation, 0, frame.withBrackets bs :: outer, some b.index⟩

theorem Punctuates.of_ok (h : s.punctuation? frame outer c = some (.ok lexed)) :
    Punctuates s frame outer c lexed := by
  have hkeep {kind : TokenKind} (hkind : kind = .operator ∨ kind = .punctuation)
      (hopener : BracketShape.ofOpener? c = none) (hcloser : BracketShape.ofCloser? c = none) :
      Punctuates s frame outer c ⟨kind, 0, frame :: outer, none⟩ := by
    have hsame : Punctuates s frame outer c
        ⟨kind, 0, frame.withBrackets frame.brackets :: outer, none⟩ :=
      .keep hkind hopener hcloser rfl
    rwa [frame.withBrackets_brackets] at hsame
  cases Marks.of_ok h with
  | question hc =>
    subst hc
    exact .keep (.inl rfl) rfl rfl rfl
  | answer hc hb hbs =>
    subst hc
    exact .keep (.inl rfl) rfl rfl (by simp [hbs, openBrackets, hb])
  | colon hc _ =>
    subst hc
    exact hkeep (.inr rfl) rfl rfl
  | comma hc =>
    subst hc
    exact .keep (.inr rfl) rfl rfl (openBrackets_dropTernaries _)
  | other hc => rcases hc with rfl | rfl <;> exact hkeep (.inr rfl) rfl rfl
  | opener hshape => exact .opener hshape
  | closer hshape hbs => exact .closer hshape hbs

/-! ### The invariant -/

/-- The tokens so far are nested up to what the frames hold open. -/
def Paired (s : Lexer) : Prop := Pending (openings s.frames) s.tokens.toList

theorem pending_emit (h : Pending os s.tokens.toList) (hkind : kind ∈ (zoneIn os).kinds)
    (hne : kind ≠ .punctuation) (value : List Char) :
    Pending os (s.emit kind value).tokens.toList := by
  rw [toList_emit]
  exact h.append (.token hkind (Token.noBracket_of_kind hne) rfl)

theorem pending_pieces {kind : Lexeme.LayoutClass → TokenKind} (h : Pending os s.tokens.toList)
    (hkind : ∀ cls, kind cls ∈ (zoneIn os).kinds ∧ kind cls ≠ .punctuation)
    (pieces : List (Lexeme.LayoutClass × List Char)) :
    Pending os (s.emitAll (pieces.map fun p => (kind p.1, p.2))).tokens.toList := by
  induction pieces generalizing s with
  | nil => exact h
  | cons p pieces ih => exact ih (pending_emit h (hkind p.1).1 (hkind p.1).2 p.2)

theorem pending_open {stop : TokenKind} (h : Pending os s.tokens.toList)
    (henclose : Encloses (zoneIn os) kind stop inner) (value : List Char) :
    Pending (.enclosure stop inner :: os) (s.emit kind value).tokens.toList := by
  rw [toList_emit]
  exact .enclosure h henclose rfl .nil

theorem pending_close (h : Pending (.enclosure kind inner :: os) s.tokens.toList)
    (value : List Char) : Pending os (s.emit kind value).tokens.toList := by
  rw [toList_emit]
  exact h.close rfl rfl

theorem pending_comment {start : List Char} (h : Pending [] s.tokens.toList)
    (hcomment : s.comment start t = .ok (s', rest)) : Pending [] s'.tokens.toList := by
  unfold Lexer.comment at hcomment
  simp only at hcomment
  split at hcomment
  · cases hcomment
  · rename_i body stop _ _
    cases hcomment
    have hopen := pending_open h .comment start
    exact pending_close (pending_pieces (s := { s.emit .commentStart start with
        directives := s.directives ++ (Directive.parse? body s.position.line).getD [] }) hopen
      (fun cls => by cases cls <;> exact ⟨by decide, nofun⟩) _) stop

theorem Paired.data (h : s.Paired) (hframes : s.frames = []) (hdata : s.data t = .ok (s', rest)) :
    s'.Paired := by
  unfold Paired at h
  rw [hframes] at h
  have htext : ∀ pieces : List (Lexeme.LayoutClass × List Char),
      Pending [] (s.emitAll (pieces.map fun p => (p.1.codeKind, p.2))).tokens.toList := by
    refine pending_pieces h fun cls => ?_
    cases cls <;> exact ⟨by decide, nofun⟩
  unfold Lexer.data at hdata
  rcases Delimiter.find s.verbatim 0 t with ⟨before, found⟩
  simp only at hdata
  split at hdata
  · cases hdata
    rw [Paired, emitAll_frames, hframes]
    exact htext _
  · cases hdata
    exact pending_open (htext _) .variable _
  · cases hdata
    exact pending_open (htext _) .block _
  · have hempty : s'.frames = [] := by
      obtain ⟨_, _, _, _, hsame, _⟩ := comment_of_ok hdata
      rw [hsame, ← hframes]
      exact emitAll_frames ..
    rw [Paired, hempty]
    refine pending_comment ?_ hdata
    exact htext _

theorem toList_take (hpartner : lexed.partner = none) :
    (s.take frame lexed c t).tokens.toList =
      s.tokens.toList ++ [⟨lexed.kind, c :: t.take lexed.more, s.position, none⟩] := by
  simp only [take, hpartner]
  exact toList_emit ..

theorem toList_take_closer {first : Nat} (hpartner : lexed.partner = some first) :
    (s.take frame lexed c t).tokens.toList =
      ((s.tokens.toList ++
        [(⟨lexed.kind, c :: t.take lexed.more, s.position, none⟩ : Token)]).modify first fun t =>
          { t with related := some s.tokens.toList.length }).modify s.tokens.toList.length fun t =>
            { t with related := some first } := by
  simp only [take, hpartner, toList_pair, toList_emit, Array.length_toList]

theorem Paired.punctuation (h : s.Paired) (hframes : s.frames = frame :: outer)
    (hframe : frame ≠ .quote) (hlexed : Punctuates s frame outer c lexed) :
    (s.take frame lexed c t).Paired := by
  have hzone : zoneIn (openings s.frames) = .code := by
    rw [hframes]
    exact Frame.zoneIn_openings hframe _
  have hopenings : openings s.frames =
      openBrackets frame.brackets ++ frame.enclosure :: openings outer := by
    rw [hframes, openings_cons, Frame.openings, List.append_assoc, List.singleton_append]
  have hafter : ∀ bs, openings (frame.withBrackets bs :: outer) =
      openBrackets bs ++ frame.enclosure :: openings outer := by
    intro bs
    rw [openings_cons, Frame.openings_withBrackets hframe, List.append_assoc,
      List.singleton_append]
  unfold Paired at h ⊢
  rw [take_frames]
  cases hlexed with
  | keep hkind hopener hcloser hbs =>
    rw [toList_take rfl, hafter, hbs, ← hopenings]
    refine h.append (.token ?_ ?_ rfl)
    · rw [hzone]
      rcases hkind with rfl | rfl
      · exact (by decide : TokenKind.operator ∈ Zone.code.kinds)
      · exact (by decide : TokenKind.punctuation ∈ Zone.code.kinds)
    · exact Token.noBracket_of_char hopener hcloser
  | opener hshape =>
    rw [toList_take rfl, hafter, openBrackets_cons (BracketShape.ofOpener?_ne_ternary hshape),
      List.cons_append, ← hopenings]
    have hopen := Pending.bracket h hzone
      (t := ⟨.punctuation, c :: t.take 0, s.position, none⟩) ⟨rfl, c, rfl, hshape⟩ .nil
    rwa [Array.length_toList] at hopen
  | closer hclose hbs =>
    rw [toList_take_closer rfl, hafter]
    rw [hopenings, ← openBrackets_dropTernaries, hbs,
      openBrackets_cons (BracketShape.ofCloser?_ne_ternary hclose)] at h
    exact h.closeBracket ⟨rfl, c, rfl, hclose⟩

theorem Paired.read (h : s.Paired) (hframes : s.frames = frame :: outer) (hframe : frame ≠ .quote)
    (hlexed : Reading s table frame outer c t lexed) : (s.take frame lexed c t).Paired := by
  have hzone : zoneIn (openings s.frames) = .code := by
    rw [hframes]
    exact Frame.zoneIn_openings hframe _
  -- Most lexemes leave the frames as they are and are no bracket.
  have halone : ∀ {kind : TokenKind} {frames : List Frame} (more : Nat),
      kind ∈ Zone.code.kinds → kind ≠ .punctuation → openings frames = openings (frame :: outer) →
        (s.take frame ⟨kind, more, frames, none⟩ c t).Paired := by
    intro kind frames more hkind hne hsame
    unfold Paired at h ⊢
    rw [take_frames, toList_take rfl, hsame, ← hframes]
    exact h.append (.token (hzone ▸ hkind) (Token.noBracket_of_kind hne) rfl)
  cases hlexed with
  | layout hc =>
    have htext := (Lexeme.layoutAt_of_layout hc t).1
    generalize (Lexeme.layoutAt c t).1 = cls at htext ⊢
    cases cls with
    | text => exact absurd rfl htext
    | spaces | tabs | lineBreak => exact halone _ (by decide) nofun rfl
  | spread | arrow | operator | number | string => exact halone _ (by decide) nofun rfl
  | name _ _ _ =>
    unfold nameLexed
    split
    · exact halone _ (by decide) nofun rfl
    · exact halone _ (by decide) nofun rfl
  | punctuation _ _ _ _ hpunct => exact h.punctuation hframes hframe (.of_ok hpunct)
  | quote _ _ _ =>
    unfold Paired at h ⊢
    rw [take_frames, toList_take rfl, ← hframes]
    exact .enclosure h (hzone ▸ .quote) rfl .nil

theorem Paired.take (h : s.Paired) (hframes : s.frames = frame :: outer)
    (hlexed : Inside s table frame outer c t lexed) : (s.take frame lexed c t).Paired := by
  have hquote : frame = .quote → Pending (.enclosure .quoteEnd .quoted :: openings outer)
      s.tokens.toList := by
    rintro rfl
    unfold Paired at h
    rwa [hframes] at h
  cases hlexed with
  | endQuote hframe _ =>
    unfold Paired
    rw [take_frames, toList_take rfl]
    exact (hquote hframe).close rfl rfl
  | interpolate hframe _ _ =>
    unfold Paired
    rw [take_frames, toList_take rfl]
    exact .enclosure (hquote hframe) .interpolation rfl .nil
  | literal hframe _ _ =>
    unfold Paired
    rw [take_frames, toList_take rfl]
    exact (hquote hframe).append
      (.token (List.mem_singleton.2 rfl) (Token.noBracket_of_kind nofun) rfl)
  | close hend =>
    unfold Paired at h ⊢
    rw [hframes, openings_cons, Frame.openings_of_endAt? hend] at h
    rw [take_frames, toList_take rfl]
    exact h.close rfl rfl
  | read hframe _ hread => exact h.read hframes hframe hread

theorem Paired.step (h : s.Paired) (hstep : s.step table c t = .ok (s', rest)) : s'.Paired := by
  obtain ⟨hframes, hdata⟩ | ⟨frame, outer, lexed, hframes, hlexed, rfl, -⟩ := step_cases hstep
  · exact h.data hframes hdata
  · exact h.take hframes hlexed

theorem Paired.run (h : s.Paired) (hrun : run table s t = .ok s') : s'.Paired :=
  run_keeps (P := fun s _ => s.Paired) Paired.step h hrun

theorem paired_init : ({} : Lexer).Paired := .closed .nil

end Lexer

/-- The tokens of a template are nested, up to the end of file. -/
theorem tokenize_nested {table : OperatorTable} {source : List Char} {t : Template}
    (h : tokenize table source = .ok t) :
    ∃ ts eof, t.stream.tokens.toList = ts ++ [eof] ∧ Nested .template 0 ts ∧ eof.kind = .eof ∧
      eof.related = none := by
  obtain ⟨s, hrun, hframes, rfl⟩ := tokenize_eq_ok_iff.1 h
  have hpaired := Lexer.paired_init.run hrun
  unfold Lexer.Paired at hpaired
  rw [hframes] at hpaired
  cases hpaired with
  | closed hts => exact ⟨_, _, Lexer.toList_emit .., hts, rfl, rfl⟩

/-! ### The stream -/

namespace TokenStream

/-- The tokens between two indices. -/
def between (s : TokenStream) (i j : Nat) : List Token := (s.tokens.toList.take j).drop (i + 1)

/-- A bracket and the later one that closes it, joined to each other. -/
def Partners (s : TokenStream) (i j : Nat) : Prop :=
  i < j ∧ ∃ a b shape, s.get? i = some a ∧ s.get? j = some b ∧ a.Opens shape ∧ b.Closes shape ∧
    a.related = some j ∧ b.related = some i

/-- Brackets are joined in pairs of one shape that do not cross and enclose whole pieces of code. -/
structure WellBracketed (s : TokenStream) : Prop where
  opener : ∀ {i a}, s.get? i = some a → a.opensBracket = true → ∃ j, s.Partners i j
  closer : ∀ {j b}, s.get? j = some b → b.closesBracket = true → ∃ i, s.Partners i j
  other : ∀ {i a}, s.get? i = some a → a.opensBracket = false → a.closesBracket = false →
    a.related = none
  uncrossed : ∀ {i j i' j'}, s.Partners i j → s.Partners i' j' → i < i' → i' < j → j' < j
  balanced : ∀ {i j}, s.Partners i j → Balanced ((s.between i j).map Token.kind)
  noDelimiter : ∀ {i j}, s.Partners i j → ∀ t ∈ s.between i j, t.kind ∉ delimiterKinds

variable {s : TokenStream} {us vs : List Token} {a : Token} {i : Nat}

theorem get?_split (hget : s.get? i = some a) :
    ∃ us vs, s.tokens.toList = us ++ a :: vs ∧ us.length = i := by
  rw [TokenStream.get?, ← Array.getElem?_toList] at hget
  obtain ⟨hlt, rfl⟩ := List.getElem?_eq_some_iff.1 hget
  refine ⟨s.tokens.toList.take i, s.tokens.toList.drop (i + 1), ?_,
    List.length_take_of_le (Nat.le_of_lt hlt)⟩
  rw [← List.drop_eq_getElem_cons hlt, List.take_append_drop]

theorem get?_of_split (h : s.tokens.toList = us ++ a :: vs) : s.get? us.length = some a := by
  rw [TokenStream.get?, ← Array.getElem?_toList, h]
  simp

end TokenStream

namespace Nested

variable {ts : List Token} {a eof : Token} {s : TokenStream} {i j : Nat}

theorem get?_bracket (hs : s.tokens.toList = ts ++ [eof]) (heof : eof.kind = .eof)
    (hget : s.get? i = some a) (hkind : a.kind = .punctuation) :
    ∃ us vs, ts = us ++ a :: vs ∧ us.length = i := by
  obtain ⟨us, vs, hsplit, hlength⟩ := TokenStream.get?_split hget
  rw [hs] at hsplit
  rcases split_append hsplit with ⟨w, rfl, -⟩ | ⟨w, -, hw⟩
  · exact ⟨us, w, rfl, hlength⟩
  · cases w with
    | nil =>
      cases hw
      rw [heof] at hkind
      cases hkind
    | cons x w => simp at hw

theorem partners (h : Nested .template 0 ts) (hs : s.tokens.toList = ts ++ [eof])
    (heof : eof.kind = .eof) (hpartners : s.Partners i j) :
    Nested .code (i + 1) (s.between i j) ∧ i + 1 + (s.between i j).length = j := by
  obtain ⟨-, a, b, shape, ha, -, hopens, -, hrelated, -⟩ := hpartners
  obtain ⟨us, vs, rfl, rfl⟩ := get?_bracket hs heof ha hopens.1
  obtain ⟨ws, b', xs, rfl, -, hrelated', -, hws⟩ := h.opener hopens
  obtain rfl : j = us.length + ws.length + 1 := by
    rw [hrelated, Nat.zero_add] at hrelated'
    exact Option.some.inj hrelated'
  have hbetween : s.between us.length (us.length + ws.length + 1) = ws := by
    have hlength : us.length + ws.length + 1 = (us ++ a :: ws).length := by
      simp only [List.length_append, List.length_cons]
      omega
    have hsplit : us ++ a :: (ws ++ b' :: xs) ++ [eof] =
        (us ++ a :: ws) ++ (b' :: xs ++ [eof]) := by simp
    rw [TokenStream.between, hs, hsplit, hlength, List.take_left, List.append_cons]
    exact List.drop_left' (by simp)
  rw [hbetween]
  rw [Nat.zero_add] at hws
  exact ⟨hws, by omega⟩

end Nested

/-- **Bracket pairing is total, mutual, of one shape and well nested.** -/
theorem tokenize_wellBracketed {table : OperatorTable} {source : List Char} {t : Template}
    (h : tokenize table source = .ok t) : t.stream.WellBracketed := by
  obtain ⟨ts, eof, hs, hnested, heof, hrelated⟩ := tokenize_nested h
  have hget : ∀ (us : List Token) (a : Token) (vs : List Token), ts = us ++ a :: vs →
      t.stream.get? us.length = some a := by
    rintro us a vs rfl
    apply TokenStream.get?_of_split
    rw [hs, List.append_assoc, List.cons_append]
  refine ⟨?_, ?_, ?_, ?_, ?_, ?_⟩
  · intro i a ha hbracket
    obtain ⟨shape, hopens⟩ := Token.opensBracket_iff.1 hbracket
    obtain ⟨us, vs, rfl, rfl⟩ := Nested.get?_bracket hs heof ha hopens.1
    obtain ⟨ws, b, xs, rfl, hcloses, hrelated, hrelated', -⟩ := hnested.opener hopens
    have hb := hget (us ++ a :: ws) b xs (by simp)
    rw [List.length_append, List.length_cons, ← Nat.add_assoc] at hb
    rw [Nat.zero_add] at hrelated hrelated'
    exact ⟨_, by omega, a, b, shape, ha, hb, hopens, hcloses, hrelated, hrelated'⟩
  · intro j b hb hbracket
    obtain ⟨shape, hcloses⟩ := Token.closesBracket_iff.1 hbracket
    obtain ⟨us, vs, rfl, rfl⟩ := Nested.get?_bracket hs heof hb hcloses.1
    obtain ⟨ws, a, xs, rfl, hopens, hrelated, hrelated'⟩ := hnested.closer hcloses
    have ha := hget ws a (xs ++ b :: vs) (by simp)
    rw [Nat.zero_add] at hrelated hrelated'
    refine ⟨_, ?_, a, b, shape, ha, hb, hopens, hcloses, hrelated', hrelated⟩
    simp only [List.length_append, List.length_cons]
    omega
  · intro i a ha hopens hcloses
    obtain ⟨us, vs, hsplit, -⟩ := TokenStream.get?_split ha
    have hmem : a ∈ ts ++ [eof] := by
      rw [← hs, hsplit]
      simp
    rcases List.mem_append.1 hmem with hmem | hmem
    · exact hnested.related_none a hmem (Token.noBracket_of_eq_false hopens hcloses)
    · rw [List.mem_singleton.1 hmem, hrelated]
  · intro i j i' j' hpartners hpartners' hlt hlt'
    obtain ⟨hbetween, hlength⟩ := hnested.partners hs heof hpartners
    obtain ⟨-, a, -, -, ha, -, -, -, hrelated, -⟩ := hpartners'
    have hmem : a ∈ t.stream.between i j := by
      rw [TokenStream.get?, ← Array.getElem?_toList] at ha
      refine List.mem_of_getElem? (i := i' - (i + 1)) ?_
      rw [TokenStream.between, List.getElem?_drop, List.getElem?_take_of_lt (by omega), ← ha]
      congr 1
      omega
    obtain ⟨-, hlt''⟩ := hbetween.related_lt hmem hrelated
    omega
  · intro i j hpartners
    exact (hnested.partners hs heof hpartners).1.balanced
  · intro i j hpartners
    exact (hnested.partners hs heof hpartners).1.kind_notMem (.inl rfl)

/-- Brackets in a string in brackets, with a ternary in between. -/
theorem tokenize_wellBracketed_string :
    ∃ t, tokenize OperatorTable.default
        "\x7b\x7b f(a ? [1] : \"x#\x7bb[0]\x7d\") \x7d\x7d".toList = .ok t ∧
      t.stream.WellBracketed ∧ t.stream.related 3 = some 23 ∧ t.stream.related 18 = some 20 := by
  obtain ⟨t, ht⟩ := exists_ok_of_isOk (x := tokenize OperatorTable.default
    "\x7b\x7b f(a ? [1] : \"x#\x7bb[0]\x7d\") \x7d\x7d".toList) (by decide +kernel)
  have hrelated : (tokenize OperatorTable.default
      "\x7b\x7b f(a ? [1] : \"x#\x7bb[0]\x7d\") \x7d\x7d".toList).toOption.map
        (fun t => (t.stream.related 3, t.stream.related 18)) = some (some 23, some 20) := by
    decide +kernel
  rw [ht] at hrelated
  obtain ⟨houter, hinner⟩ := Prod.mk.inj (Option.some.inj hrelated)
  exact ⟨t, ht, tokenize_wellBracketed ht, houter, hinner⟩

end TwigStyle
