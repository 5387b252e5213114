import TwigStyle.Proofs.Lossless

/-!
# Layout

`IsGap` says that a text consists of layout alone: spaces, tabs, carriage returns and line feeds.
Template text, code and comment bodies are all cut by `Lexeme.layoutAt`, which takes a row of layout
where the text starts with layout (`layoutAt_of_layout`) and a word where it does not.  A token of
one of the layout kinds therefore holds layout and nothing else (`tokenize_gaps`).
-/

namespace TwigStyle

variable {p : Char → Bool} {a c : Char} {table : OperatorTable} {source : List Char} {t : Template}

/-- Layout is made of layout characters. -/
def IsGap (g : List Char) : Prop := ∀ c ∈ g, Text.isLayout c = true

instance (g : List Char) : Decidable (IsGap g) := List.decidableBAll _ g

theorem IsGap.append {g h : List Char} (hg : IsGap g) (hh : IsGap h) : IsGap (g ++ h) := by
  intro c hc
  rcases List.mem_append.1 hc with hc | hc
  · exact hg c hc
  · exact hh c hc

theorem isGap_nil : IsGap [] := nofun

theorem Lexeme.take_runLength (p : Char → Bool) (t : List Char) :
    t.take (runLength p t) = t.takeWhile p :=
  (List.prefix_iff_eq_take.1 (List.takeWhile_prefix p)).symm

theorem of_mem_takeWhile {t : List Char} (h : a ∈ t.takeWhile p) : p a = true :=
  List.all_eq_true.1 List.all_takeWhile a h

/-- Two texts are cut at the same place if the cut is where `p` ends. -/
theorem append_inj_of_boundary {α : Type} {p : α → Bool} {s t x y : List α}
    (hs : ∀ a ∈ s, p a = true) (ht : ∀ a ∈ t, p a = true) (hx : ∀ a ∈ x.head?, p a = false)
    (hy : ∀ a ∈ y.head?, p a = false) (h : s ++ x = t ++ y) : s = t ∧ x = y := by
  have hcut : ∀ {s x : List α}, (∀ a ∈ s, p a = true) → (∀ a ∈ x.head?, p a = false) →
      (s ++ x).takeWhile p = s := by
    intro s x hs hx
    rw [List.takeWhile_append_of_pos hs]
    cases x with
    | nil => simp
    | cons a x => simp [hx a rfl]
  have hst : s = t := by rw [← hcut hs hx, h, hcut ht hy]
  exact ⟨hst, List.append_cancel_left (hst ▸ h)⟩

/-! ### Characters -/

theorem of_isLayout (hp : [' ', '\t', '\r', '\n'].all p = true) (h : Text.isLayout c = true) :
    p c = true := by
  have hmem : c ∈ [' ', '\t', '\r', '\n'] := by simpa [Text.isLayout, or_assoc] using h
  exact List.all_eq_true.1 hp c hmem

theorem isLayout_eq_false (hp : [' ', '\t', '\r', '\n'].all (!p ·) = true) (h : p c = true) :
    Text.isLayout c = false := by
  cases hc : Text.isLayout c with
  | false => rfl
  | true =>
    have hno := of_isLayout hp hc
    rw [h] at hno
    cases hno

theorem toNat_of_isDigit (h : a.isDigit = true) : 48 ≤ a.toNat ∧ a.toNat ≤ 57 := by
  obtain ⟨hle, hle'⟩ := Bool.and_eq_true _ _ |>.mp h
  exact ⟨UInt32.le_iff_toNat_le.1 (of_decide_eq_true hle),
    UInt32.le_iff_toNat_le.1 (of_decide_eq_true hle')⟩

theorem toNat_of_isAlpha (h : a.isAlpha = true) :
    65 ≤ a.toNat ∧ a.toNat ≤ 90 ∨ 97 ≤ a.toNat ∧ a.toNat ≤ 122 := by
  rcases Bool.or_eq_true _ _ |>.mp h with h | h
  · obtain ⟨hle, hle'⟩ := of_decide_eq_true h
    exact .inl ⟨UInt32.le_iff_toNat_le.1 hle, UInt32.le_iff_toNat_le.1 hle'⟩
  · obtain ⟨hle, hle'⟩ := Bool.and_eq_true _ _ |>.mp h
    exact .inr ⟨UInt32.le_iff_toNat_le.1 (of_decide_eq_true hle),
      UInt32.le_iff_toNat_le.1 (of_decide_eq_true hle')⟩

theorem lineBreakOf_mem (t : List Char) : lineBreakOf t ∈ [['\n'], ['\r'], ['\r', '\n']] := by
  have hfirst : ∀ g, firstLineBreak? t = some g → g ∈ [['\n'], ['\r'], ['\r', '\n']] := by
    fun_induction firstLineBreak? t with
    | case1 =>
      intro g hg
      cases hg
    | case2 | case3 | case4 =>
      intro g hg
      cases hg
      decide
    | case5 _ _ _ _ _ ih => exact ih
  unfold lineBreakOf
  cases hbreak : firstLineBreak? t with
  | none => decide
  | some g => exact hfirst g hbreak

theorem isGap_of_lineBreak {v : List Char} (hv : v ∈ [['\n'], ['\r'], ['\r', '\n']]) :
    IsGap v ∧ v ≠ [] := by
  simp only [List.mem_cons, List.not_mem_nil, or_false] at hv
  rcases hv with rfl | rfl | rfl <;> decide

theorem isGap_lineBreakOf (t : List Char) : IsGap (lineBreakOf t) :=
  (isGap_of_lineBreak (lineBreakOf_mem t)).1

theorem Lexeme.layoutAt_of_solid (hc : Text.isLayout c = false) (t : List Char) :
    layoutAt c t = (.text, runLength (!Text.isLayout ·) t) := by
  simp only [Text.isLayout, Bool.or_eq_false_iff, beq_eq_false_iff_ne] at hc
  simp [layoutAt, hc]

/-! ### Layout tokens -/

namespace Lexeme

/-- The text is a row of spaces, a row of tabs or one line break. -/
def LayoutClass.IsRun : LayoutClass → List Char → Prop
  | .text, _ => False
  | .spaces, v => ∀ c ∈ v, c = ' '
  | .tabs, v => ∀ c ∈ v, c = '\t'
  | .lineBreak, v => v ∈ [['\n'], ['\r'], ['\r', '\n']]

/-- A lexeme of a layout kind holds layout of this kind. -/
def Genuine (l : Lexeme) : Prop :=
  TokenKind.layout.contains l.1 = true →
    ∃ cls : LayoutClass, cls.IsRun l.2 ∧ (l.1 = cls.codeKind ∨ l.1 = cls.commentKind)

theorem LayoutClass.IsRun.gap {cls : LayoutClass} {v : List Char} (h : cls.IsRun v) : IsGap v := by
  cases cls with
  | text => cases h
  | spaces | tabs =>
    intro c hc
    rw [h c hc]
    rfl
  | lineBreak =>
    simp only [IsRun, List.mem_cons, List.not_mem_nil, or_false] at h
    rcases h with rfl | rfl | rfl <;> decide

theorem Genuine.gap {l : Lexeme} (h : Genuine l) (hl : TokenKind.layout.contains l.1 = true) :
    IsGap l.2 := by
  obtain ⟨cls, hrun, -⟩ := h hl
  exact hrun.gap

theorem isRun_layoutAt (c : Char) (t : List Char) (hcls : (layoutAt c t).1 ≠ .text) :
    (layoutAt c t).1.IsRun (c :: t.take (layoutAt c t).2) := by
  have hc : Text.isLayout c = true := by
    cases hc : Text.isLayout c with
    | true => rfl
    | false =>
      rw [layoutAt_of_solid hc] at hcls
      exact absurd rfl hcls
  simp only [Text.isLayout, Bool.or_eq_true, beq_iff_eq] at hc
  have hrow : ∀ a : Char, ∀ d ∈ a :: t.take (runLength (· == a) t), d = a := by
    intro a d hd
    rw [take_runLength] at hd
    rcases List.mem_cons.1 hd with rfl | hd
    · rfl
    · exact eq_of_beq (of_mem_takeWhile (p := (· == a)) hd)
  rcases hc with ((rfl | rfl) | rfl) | rfl
  · exact hrow ' '
  · exact hrow '\t'
  · change '\r' :: t.take (if t.head? == some '\n' then 1 else 0) ∈ _
    cases t with
    | nil => simp
    | cons d t => by_cases hd : d = '\n' <;> simp [hd]
  · exact List.mem_cons_self

theorem layoutAt_of_layout {c : Char} (hc : Text.isLayout c = true) (t : List Char) :
    (layoutAt c t).1 ≠ .text ∧ IsGap (t.take (layoutAt c t).2) := by
  have hcls : (layoutAt c t).1 ≠ .text := by
    simp only [Text.isLayout, Bool.or_eq_true, beq_iff_eq] at hc
    rcases hc with ((rfl | rfl) | rfl) | rfl <;> (intro h; cases h)
  exact ⟨hcls, fun a ha => (isRun_layoutAt c t hcls).gap a (List.mem_cons_of_mem c ha)⟩

theorem layoutPieces_genuine (t : List Char) :
    ∀ p ∈ layoutPieces t, p.1 ≠ .text → p.1.IsRun p.2 := by
  fun_induction layoutPieces t with
  | case1 => simp
  | case2 c t more ih =>
    intro p hp
    rcases List.mem_cons.1 hp with rfl | hp
    · exact isRun_layoutAt c t
    · exact ih p hp

end Lexeme

namespace Lexer

variable {s s' : Lexer} {table : OperatorTable} {frame : Frame} {outer : List Frame} {c : Char}
  {t rest : List Char} {lexed : Lexed}

theorem Inside.of_layout (h : Inside s table frame outer c t lexed)
    (hk : TokenKind.layout.contains lexed.kind = true) :
    frame ≠ .quote ∧ Text.isLayout c = true ∧
      lexed = ⟨(Lexeme.layoutAt c t).1.codeKind, (Lexeme.layoutAt c t).2, frame :: outer, none⟩ := by
  cases h with
  | endQuote | interpolate | literal => cases hk
  | close hend =>
    rcases endAt?_kind hend with hkind | hkind | hkind <;> rw [hkind] at hk <;> cases hk
  | read hframe _ h =>
    cases h with
    | layout hc => exact ⟨hframe, hc, rfl⟩
    | name _ _ _ =>
      rcases nameLexed_kind frame outer c t with hkind | hkind <;> rw [hkind] at hk <;> cases hk
    | punctuation _ _ _ _ h =>
      rcases (punctuation?_ok h).1 with hkind | hkind <;> rw [hkind] at hk <;> cases hk
    | spread | arrow | operator | number | string | quote => cases hk

theorem Inside.genuine (h : Inside s table frame outer c t lexed) :
    Lexeme.Genuine (lexed.kind, c :: t.take lexed.more) := by
  intro hlayout
  obtain ⟨-, hc, hlexed⟩ := h.of_layout hlayout
  rw [hlexed]
  exact ⟨_, Lexeme.isRun_layoutAt c t (Lexeme.layoutAt_of_layout hc t).1, .inl rfl⟩

theorem Data.genuine {verbatim verbatim' : Bool} {new : List Lexeme} {frames : List Frame}
    (h : Data verbatim t new frames verbatim' rest) : ∀ l ∈ new, l.Genuine := by
  refine h.forall ?_ ?_ nofun
  · rintro u ⟨cls, v⟩ hp
    have hrun := Lexeme.layoutPieces_genuine u _ hp
    constructor <;> intro hlayout
    · exact ⟨cls, hrun (by rintro rfl; cases hlayout), .inl rfl⟩
    · exact ⟨cls, hrun (by rintro rfl; cases hlayout), .inr rfl⟩
  · intro before value after k _ kind hkind hlayout
    have hno : ∀ k ∈ [TokenKind.variableStart, .blockStart, .commentStart],
        TokenKind.layout.contains k = false := by decide
    rw [hno kind hkind] at hlayout
    cases hlayout

theorem step_forall {P : Lexeme → Prop}
    (hdata : ∀ {verbatim verbatim' : Bool} {t rest : List Char} {new : List Lexeme}
      {frames : List Frame}, Data verbatim t new frames verbatim' rest → ∀ l ∈ new, P l)
    (hinside : ∀ {s : Lexer} {frame : Frame} {outer : List Frame} {c : Char} {t : List Char}
      {lexed : Lexed}, Inside s table frame outer c t lexed → P (lexed.kind, c :: t.take lexed.more))
    (h : s.step table c t = .ok (s', rest)) :
    ∃ new, s'.emitted = s.emitted ++ new ∧ ∀ l ∈ new, P l := by
  refine step_adds (P := fun _ new _ => ∀ l ∈ new, P l) hdata ?_ h
  intro frame outer lexed hlexed
  exact List.forall_mem_singleton.2 (hinside hlexed)

end Lexer

/-- What holds of all lexemes that template text and code are cut into holds in a template. -/
theorem tokenize_forall {P : Lexeme → Prop}
    (hdata : ∀ {verbatim verbatim' : Bool} {t rest : List Char} {new : List Lexeme}
      {frames : List Frame}, Lexer.Data verbatim t new frames verbatim' rest → ∀ l ∈ new, P l)
    (hinside : ∀ {s : Lexer} {frame : Frame} {outer : List Frame} {c : Char} {t : List Char}
      {lexed : Lexed}, Lexer.Inside s table frame outer c t lexed →
        P (lexed.kind, c :: t.take lexed.more))
    (heof : P (.eof, [])) (h : tokenize table source = .ok t) : ∀ l ∈ t.stream.lexemes, P l := by
  obtain ⟨s, hrun, -, rfl⟩ := tokenize_eq_ok_iff.1 h
  obtain ⟨new, hnew, hall⟩ := Lexer.run_forall (Lexer.step_forall hdata hinside) hrun
  intro l hl
  change l ∈ (s.emit .eof []).emitted at hl
  rw [Lexer.emitted_emit, hnew, Lexer.emitted_init, List.nil_append] at hl
  rcases List.mem_append.1 hl with hl | hl
  · exact hall l hl
  · rw [List.mem_singleton.1 hl]
    exact heof

/-- A token of a layout kind holds layout. -/
theorem tokenize_gaps (h : tokenize table source = .ok t) : ∀ l ∈ t.stream.lexemes, l.Genuine :=
  tokenize_forall Lexer.Data.genuine Lexer.Inside.genuine nofun h

end TwigStyle
