import TwigStyle.Proofs.Lossless

/-!
# States that read alike

What the lexer reads next depends on little of its state: the open constructs with the shapes of
their open brackets, whether it stands in a verbatim body, and whether the last lexeme that is no
layout is a `.` or a `|`.  Where the tokens stand and which index a bracket has is of no concern.

Two states that agree on this read alike (`step_alike`): they add the same lexemes and agree again
afterwards.  This is what makes it possible to change a template in one place and
to know how the rest of it is read.
-/

namespace TwigStyle

/-- The lexemes that are no layout. -/
def meaningful (ls : List Lexeme) : List Lexeme :=
  ls.filter fun l => !TokenKind.layout.contains l.1

@[simp] theorem meaningful_nil : meaningful [] = [] := rfl

@[simp] theorem meaningful_append (ls ms : List Lexeme) :
    meaningful (ls ++ ms) = meaningful ls ++ meaningful ms := List.filter_append ..

/-- Does a name after these lexemes belong to an attribute or a filter? -/
def endsAccess (ls : List Lexeme) : Bool :=
  (meaningful ls).getLast?.any fun l => l == (.punctuation, ['.']) || l == (.punctuation, ['|'])

theorem endsAccess_append {ls ms : List Lexeme} (ns : List Lexeme)
    (h : endsAccess ls = endsAccess ms) : endsAccess (ls ++ ns) = endsAccess (ms ++ ns) := by
  unfold endsAccess at h ⊢
  rw [meaningful_append, meaningful_append, List.getLast?_append, List.getLast?_append]
  cases (meaningful ns).getLast? with
  | none => simpa using h
  | some l => rfl

theorem Lexer.namesAttribute_eq (s : Lexer) : s.namesAttribute = endsAccess s.emitted := by
  have hlast : s.lastMeaningful?.map Token.lexeme = (meaningful s.emitted).getLast? := by
    rw [lastMeaningful?, ← Array.back?_filter, ← Array.getLast?_toList, Array.toList_filter,
      ← List.getLast?_map, meaningful, emitted, List.filter_map]
    rfl
  unfold namesAttribute endsAccess
  rw [← hlast]
  cases s.lastMeaningful? with
  | none => rfl
  | some t => rfl

/-! ### Brackets in other places -/

/-- A construct with its brackets changed. -/
def Frame.map (g : OpenBracket → OpenBracket) : Frame → Frame
  | .variable bs => .variable (bs.map g)
  | .block name bs => .block name (bs.map g)
  | .quote => .quote
  | .interpolation bs => .interpolation (bs.map g)

section Map

variable {g : OpenBracket → OpenBracket} (f : Frame)

@[simp] theorem Frame.brackets_map : (f.map g).brackets = f.brackets.map g := by
  cases f <;> rfl

@[simp] theorem Frame.withBrackets_map (bs : List OpenBracket) :
    (f.map g).withBrackets (bs.map g) = (f.withBrackets bs).map g := by
  cases f <;> rfl

theorem Frame.map_eq_quote_iff : f.map g = .quote ↔ f = .quote := by
  cases f <;> simp [Frame.map]

theorem Lexer.startsVerbatim_map (kind : TokenKind) :
    startsVerbatim (f.map g) kind = startsVerbatim f kind := by
  cases f with
  | block name bs => cases name <;> cases kind <;> rfl
  | «variable» | quote | interpolation => rfl

-- Shapes are all that the lexer asks of the brackets that are open.
variable (hg : ∀ b, (g b).shape = b.shape)
include hg

theorem hasOpenBracket_map (bs : List OpenBracket) :
    hasOpenBracket (bs.map g) = hasOpenBracket bs := by
  simp [hasOpenBracket, List.any_map, Function.comp_def, hg]

theorem dropTernaries_map (bs : List OpenBracket) :
    dropTernaries (bs.map g) = (dropTernaries bs).map g := by
  simp [dropTernaries, List.dropWhile_map, Function.comp_def, hg]

theorem Frame.endAt?_map (t : List Char) : (f.map g).endAt? t = f.endAt? t := by
  simp only [endAt?, brackets_map, hasOpenBracket_map hg]
  cases f <;> rfl

end Map

/-- Brackets without their places. -/
def bareBrackets (bs : List OpenBracket) : List OpenBracket := bs.map fun b => ⟨b.shape, 0, 0⟩

/-- A construct without the places of its brackets. -/
def Frame.bare (f : Frame) : Frame := f.map fun b => ⟨b.shape, 0, 0⟩

/-- A lexeme without the places of the brackets that are open after it. -/
def Lexed.bare (l : Lexed) : Lexed := ⟨l.kind, l.more, l.frames.map Frame.bare, none⟩

@[simp] theorem bareBrackets_cons (b : OpenBracket) (bs : List OpenBracket) :
    bareBrackets (b :: bs) = ⟨b.shape, 0, 0⟩ :: bareBrackets bs := rfl

theorem bareBrackets_bareBrackets (bs : List OpenBracket) :
    bareBrackets (bareBrackets bs) = bareBrackets bs := by
  simp [bareBrackets]

theorem exists_of_bareBrackets {b : OpenBracket} {bs cs : List OpenBracket}
    (h : bareBrackets cs = bareBrackets (b :: bs)) :
    ∃ b' bs', cs = b' :: bs' ∧ b'.shape = b.shape ∧ bareBrackets bs' = bareBrackets bs := by
  cases cs with
  | nil => cases h
  | cons b' bs' =>
    simp only [bareBrackets_cons, List.cons.injEq, OpenBracket.mk.injEq, and_true] at h
    exact ⟨b', bs', rfl, h.1, h.2⟩

theorem dropTernaries_bare (bs : List OpenBracket) :
    dropTernaries (bareBrackets bs) = bareBrackets (dropTernaries bs) :=
  dropTernaries_map (g := fun b => ⟨b.shape, 0, 0⟩) (fun _ => rfl) bs

namespace Frame

variable (f : Frame)

@[simp] theorem bare_variable (bs : List OpenBracket) :
    (Frame.variable bs).bare = .variable (bareBrackets bs) := rfl

@[simp] theorem bare_block (name : Option (List Char)) (bs : List OpenBracket) :
    (Frame.block name bs).bare = .block name (bareBrackets bs) := rfl

@[simp] theorem bare_quote : Frame.quote.bare = .quote := rfl

@[simp] theorem bare_interpolation (bs : List OpenBracket) :
    (Frame.interpolation bs).bare = .interpolation (bareBrackets bs) := rfl

@[simp] theorem bare_bare : f.bare.bare = f.bare := by
  cases f <;> simp [bareBrackets_bareBrackets]

@[simp] theorem brackets_bare : f.bare.brackets = bareBrackets f.brackets := brackets_map f

@[simp] theorem bare_withBrackets (bs : List OpenBracket) :
    (f.withBrackets bs).bare = f.bare.withBrackets (bareBrackets bs) := (withBrackets_map f bs).symm

theorem endAt?_bare (t : List Char) : f.bare.endAt? t = f.endAt? t :=
  endAt?_map (g := fun b => ⟨b.shape, 0, 0⟩) f (fun _ => rfl) t

theorem bare_eq_quote_iff : f.bare = .quote ↔ f = .quote := map_eq_quote_iff f

end Frame

namespace Lexer

variable {s s' : Lexer} {table : OperatorTable} {frame frame' : Frame} {outer outer' : List Frame}
  {c : Char} {t : List Char} {lexed : Lexed}

/-! ### Lexemes -/

theorem operator?_congr (hnames : s.namesAttribute = s'.namesAttribute) :
    s.operator? table c t = s'.operator? table c t := by
  simp only [operator?, hnames]

theorem nameLexed_bare (hframe : frame.bare = frame'.bare)
    (houter : outer.map Frame.bare = outer'.map Frame.bare) :
    (nameLexed frame outer c t).bare = (nameLexed frame' outer' c t).bare := by
  have key : ∀ (f : Frame) (fs : List Frame),
      (nameLexed f fs c t).bare = (nameLexed f.bare (fs.map Frame.bare) c t).bare := by
    intro f fs
    cases f with
    | block name bs =>
      cases name <;>
        simp [nameLexed, Lexed.bare, bareBrackets_bareBrackets, Function.comp_def]
    | «variable» | quote | interpolation =>
      simp [nameLexed, Lexed.bare, bareBrackets_bareBrackets, Function.comp_def]
  rw [key, key frame' outer', hframe, houter]

theorem punctuation?_bare (hframe : frame.bare = frame'.bare)
    (houter : outer.map Frame.bare = outer'.map Frame.bare)
    (h : s.punctuation? frame outer c = some (.ok lexed)) :
    ∃ lexed', s'.punctuation? frame' outer' c = some (.ok lexed') ∧ lexed'.bare = lexed.bare := by
  have hbrackets : bareBrackets frame'.brackets = bareBrackets frame.brackets := by
    rw [← Frame.brackets_bare, ← Frame.brackets_bare, hframe]
  have hdrop : bareBrackets (dropTernaries frame'.brackets) =
      bareBrackets (dropTernaries frame.brackets) := by
    rw [← dropTernaries_bare, ← dropTernaries_bare, hbrackets]
  cases Marks.of_ok h with
  | question hc =>
    exact ⟨_, (Marks.question hc).ok, by simp [Lexed.bare, openHere, hframe, houter, hbrackets]⟩
  | answer hc hb hbs =>
    rw [hbs] at hbrackets
    obtain ⟨b', bs', hbs', hshape, hrest⟩ := exists_of_bareBrackets hbrackets
    exact ⟨_, (Marks.answer hc (hshape.trans hb) hbs').ok, by simp [Lexed.bare, hframe, houter, hrest]⟩
  | colon hc hbs =>
    refine ⟨_, (Marks.colon hc fun b hb => ?_).ok, by simp [Lexed.bare, hframe, houter]⟩
    obtain ⟨bs, hbs'⟩ := List.head?_eq_some_iff.1 hb
    rw [hbs'] at hbrackets
    obtain ⟨b', bs', hcons, hshape, -⟩ := exists_of_bareBrackets hbrackets.symm
    rw [← hshape]
    exact hbs b' (by rw [hcons]; rfl)
  | comma hc => exact ⟨_, (Marks.comma hc).ok, by simp [Lexed.bare, hframe, houter, hdrop]⟩
  | other hc => exact ⟨_, (Marks.other hc).ok, by simp [Lexed.bare, hframe, houter]⟩
  | opener hc =>
    exact ⟨_, (Marks.opener hc).ok, by simp [Lexed.bare, openHere, hframe, houter, hbrackets]⟩
  | closer hc hbs =>
    rw [hbs] at hdrop
    obtain ⟨b', bs', hbs', hshape, hrest⟩ := exists_of_bareBrackets hdrop
    exact ⟨_, (Marks.closer (hshape ▸ hc) hbs').ok, by simp [Lexed.bare, hframe, houter, hrest]⟩

section

variable (hnames : s.namesAttribute = s'.namesAttribute) (hframe : frame.bare = frame'.bare)
  (houter : outer.map Frame.bare = outer'.map Frame.bare)
include hnames hframe houter

theorem Reading.alike (h : Reading s table frame outer c t lexed) :
    ∃ lexed', Reading s' table frame' outer' c t lexed' ∧ lexed'.bare = lexed.bare := by
  have hframes : (frame :: outer).map Frame.bare = (frame' :: outer').map Frame.bare := by
    rw [List.map_cons, List.map_cons, hframe, houter]
  have hop : s.operator? table c t = s'.operator? table c t := operator?_congr hnames
  cases h with
  | layout hc => exact ⟨_, .layout hc, by simp only [Lexed.bare, hframes]⟩
  | spread hc h => exact ⟨_, .spread hc h, by simp only [Lexed.bare, hframes]⟩
  | arrow hc hspread h => exact ⟨_, .arrow hc hspread h, by simp only [Lexed.bare, hframes]⟩
  | operator hplain h => exact ⟨_, .operator hplain (hop ▸ h), by simp only [Lexed.bare, hframes]⟩
  | name hplain hno h =>
    exact ⟨_, .name hplain (hop ▸ hno) h, (nameLexed_bare hframe houter).symm⟩
  | number hplain hno hname h =>
    exact ⟨_, .number hplain (hop ▸ hno) hname h, by simp only [Lexed.bare, hframes]⟩
  | punctuation hplain hno hname hdigit h =>
    obtain ⟨lexed', hlexed', hbare⟩ := punctuation?_bare hframe houter h
    exact ⟨lexed', .punctuation hplain (hop ▸ hno) hname hdigit hlexed', hbare⟩
  | string hplain hno hc h =>
    exact ⟨_, .string hplain (hop ▸ hno) hc h, by simp only [Lexed.bare, hframes]⟩
  | quote hplain hno hc =>
    exact ⟨_, .quote hplain (hop ▸ hno) hc, by
      simp only [Lexed.bare, List.map_cons, hframe, houter]⟩

theorem Inside.alike (h : Inside s table frame outer c t lexed) :
    ∃ lexed', Inside s' table frame' outer' c t lexed' ∧ lexed'.bare = lexed.bare := by
  have hquote : frame = .quote ↔ frame' = .quote := by
    rw [← Frame.bare_eq_quote_iff, hframe, Frame.bare_eq_quote_iff]
  have hend : ∀ t, frame.endAt? t = frame'.endAt? t := by
    intro t
    rw [← Frame.endAt?_bare, hframe, Frame.endAt?_bare]
  cases h with
  | endQuote hq hc => exact ⟨_, .endQuote (hquote.1 hq) hc, by simp only [Lexed.bare, houter]⟩
  | interpolate hq hc ht =>
    exact ⟨_, .interpolate (hquote.1 hq) hc ht, by simp only [Lexed.bare, List.map_cons, houter]⟩
  | literal hq hc ht =>
    exact ⟨_, .literal (hquote.1 hq) hc ht, by simp only [Lexed.bare, List.map_cons, houter]⟩
  | close h => exact ⟨_, .close (hend _ ▸ h), by simp only [Lexed.bare, houter]⟩
  | read hq hno h =>
    obtain ⟨lexed', hlexed', hbare⟩ := h.alike hnames hframe houter
    exact ⟨lexed', .read (fun hq' => hq (hquote.2 hq')) (hend _ ▸ hno) hlexed', hbare⟩

end

/-! ### States -/

/-- Two states that read alike. -/
structure Alike (s s' : Lexer) : Prop where
  frames : s.frames.map Frame.bare = s'.frames.map Frame.bare
  verbatim : s.verbatim = s'.verbatim
  access : endsAccess s.emitted = endsAccess s'.emitted

theorem Alike.names (h : Alike s s') : s.namesAttribute = s'.namesAttribute := by
  rw [namesAttribute_eq, namesAttribute_eq, h.access]

@[simp] theorem take_frames (s : Lexer) (frame : Frame) (lexed : Lexed) (c : Char)
    (t : List Char) : (s.take frame lexed c t).frames = lexed.frames := by
  unfold take
  cases lexed.partner <;> rfl

@[simp] theorem take_verbatim (s : Lexer) (frame : Frame) (lexed : Lexed) (c : Char)
    (t : List Char) :
    (s.take frame lexed c t).verbatim = (s.verbatim || startsVerbatim frame lexed.kind) := by
  unfold take
  cases lexed.partner <;> rfl

theorem startsVerbatim_bare (frame : Frame) (kind : TokenKind) :
    startsVerbatim frame.bare kind = startsVerbatim frame kind := startsVerbatim_map frame kind

variable {s₁ s₁' : Lexer} {rest : List Char}

/-- States that read alike take the same step. -/
theorem step_alike (h : Alike s s') (hstep : s.step table c t = .ok (s₁, rest)) :
    ∃ s₁' new, s'.step table c t = .ok (s₁', rest) ∧ Alike s₁ s₁' ∧
      s₁.emitted = s.emitted ++ new ∧ s₁'.emitted = s'.emitted ++ new := by
  rcases step_cases hstep with ⟨hframes, hdata⟩ | ⟨frame, outer, lexed, hframes, hlexed, rfl, rfl⟩
  · have hframes' : s'.frames = [] := by simpa [hframes] using h.frames.symm
    obtain ⟨new, hdata, hnew⟩ := data_of_ok hframes hdata
    rw [h.verbatim] at hdata
    obtain ⟨s₁', hstep', hnew', hframes₁, hverbatim₁⟩ := hdata.ok hframes'
    refine ⟨s₁', new, (step_of_data hframes').trans hstep', ⟨?_, ?_, ?_⟩, hnew, hnew'⟩
    · rw [hframes₁]
    · rw [hverbatim₁]
    · rw [hnew, hnew']
      exact endsAccess_append new h.access
  · have hbare := h.frames
    rw [hframes] at hbare
    cases hframes' : s'.frames with
    | nil =>
      rw [hframes'] at hbare
      cases hbare
    | cons frame' outer' =>
      rw [hframes', List.map_cons, List.map_cons] at hbare
      obtain ⟨hframe, houter⟩ := List.cons.inj hbare
      obtain ⟨lexed', hlexed', hsame⟩ := hlexed.alike h.names hframe houter
      have hkind : lexed'.bare.kind = lexed.bare.kind := by rw [hsame]
      have hmore : lexed'.bare.more = lexed.bare.more := by rw [hsame]
      have hafter : lexed'.bare.frames = lexed.bare.frames := by rw [hsame]
      simp only [Lexed.bare] at hkind hmore hafter
      refine ⟨s'.take frame' lexed' c t, [(lexed.kind, c :: t.take lexed.more)], ?_, ⟨?_, ?_, ?_⟩,
        emitted_take .., ?_⟩
      · rw [step_of_inside hframes' hlexed', hmore]
      · rw [take_frames, take_frames]
        exact hafter.symm
      · rw [take_verbatim, take_verbatim, h.verbatim, hkind, ← startsVerbatim_bare frame,
          hframe, startsVerbatim_bare]
      · rw [emitted_take, emitted_take, hkind, hmore]
        exact endsAccess_append _ h.access
      · rw [emitted_take, hkind, hmore]

end Lexer

end TwigStyle
