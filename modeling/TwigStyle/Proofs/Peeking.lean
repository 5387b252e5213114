import TwigStyle.Proofs.TextRows

/-!
# The next lexeme of a run

In code a run reads some layout and then a lexeme.  `run_first` takes a run apart in this way, and
`run_gap` puts layout in front of a run.  What a lexeme in code can be, given where it is read, is
seen from there: a closing brace needs an open bracket (`Inside.not_brace`), and the colon behind a
question mark is the colon of the ternary (`First.not_colon`).
-/

namespace TwigStyle

theorem endsAccess_append_layout {ls lay : List Lexeme}
    (h : ∀ l ∈ lay, Lexeme.isLayout l = true) : endsAccess (ls ++ lay) = endsAccess ls := by
  unfold endsAccess
  rw [meaningful_append, meaningful_of_layout h, List.append_nil]

namespace Lexer

variable {s s₁ : Lexer} {table : OperatorTable} {frame : Frame} {outer : List Frame} {c : Char}
  {t g : List Char} {lexed : Lexed} {new : List Lexeme} {bs : List OpenBracket}

theorem endAt?_of_layout (hc : Text.isLayout c = true) : frame.endAt? (c :: t) = none := by
  have hends : ∀ v ∈ Frame.allEnds, v.head?.all (!Text.isLayout ·) = true := by decide
  cases hend : frame.endAt? (c :: t) with
  | none => rfl
  | some e => simpa [hc] using hends _ (Frame.mem_allEnds hend)

theorem Inside.solid (h : Inside s table frame outer c t lexed) (hframe : frame ≠ .quote)
    (hk : TokenKind.layout.contains lexed.kind = false) : Text.isLayout c = false := by
  cases h with
  | endQuote hq | interpolate hq | literal hq => exact absurd hq hframe
  | close hend =>
    cases hc : Text.isLayout c with
    | false => rfl
    | true =>
      rw [endAt?_of_layout hc] at hend
      cases hend
  | read _ _ h =>
    cases h with
    | layout hc =>
      obtain ⟨hcls, -⟩ := Lexeme.layoutAt_of_layout hc t
      cases hclass : (Lexeme.layoutAt c t).1 with
      | text => exact absurd hclass hcls
      | spaces | tabs | lineBreak =>
        simp only [hclass] at hk
        cases hk
    | spread hc | arrow hc => exact hc
    | operator hplain | name hplain | number hplain | punctuation hplain | string hplain
    | quote hplain => exact hplain.solid

theorem startsVerbatim_of_layout {kind : TokenKind}
    (hk : TokenKind.layout.contains kind = true) : startsVerbatim frame kind = false := by
  cases frame with
  | block name bs => cases name <;> cases kind <;> first | rfl | cases hk
  | «variable» | quote | interpolation => rfl

theorem alike_take_layout (hframes : s.frames = frame :: outer)
    (h : Inside s table frame outer c t lexed)
    (hk : TokenKind.layout.contains lexed.kind = true) :
    Alike s (s.take frame lexed c t) ∧ (s.take frame lexed c t).frames = frame :: outer ∧
      meaningful (s.take frame lexed c t).emitted = meaningful s.emitted := by
  obtain ⟨-, -, hlexed⟩ := h.of_layout hk
  have hafter : lexed.frames = frame :: outer := by rw [hlexed]
  have hlayout : ∀ l ∈ [((lexed.kind, c :: t.take lexed.more) : Lexeme)],
      Lexeme.isLayout l = true := by
    intro l hl
    rw [List.mem_singleton.1 hl]
    exact hk
  refine ⟨⟨?_, ?_, ?_⟩, ?_, ?_⟩
  · rw [take_frames, hafter, hframes]
  · rw [take_verbatim, startsVerbatim_of_layout hk, Bool.or_false]
  · rw [emitted_take, endsAccess_append_layout hlayout]
  · rw [take_frames, hafter]
  · rw [emitted_take, meaningful_append, meaningful_of_layout hlayout, List.append_nil]

theorem Alike.trans {s₂ s₃ : Lexer} (h : Alike s s₂) (h' : Alike s₂ s₃) : Alike s s₃ :=
  ⟨h.frames.trans h'.frames, h.verbatim.trans h'.verbatim, h.access.trans h'.access⟩

/-! ### Runs in code -/

/-- The lexeme that a run in code reads first, behind some layout. -/
structure First (table : OperatorTable) (s : Lexer) (frame : Frame) (outer : List Frame)
    (s₁ : Lexer) (t g : List Char) (x : Lexeme) (h : List Char) (rows : List (Lexeme × List Char))
    (s₂ : Lexer) (c : Char) (u r : List Char) (lexed : Lexed) (more : List Lexeme) : Prop where
  frames : s₂.frames = frame :: outer
  alike : Alike s s₂
  emitted : meaningful s₂.emitted = meaningful s.emitted
  text : t = g ++ (c :: (u ++ r))
  lexeme : x = (lexed.kind, c :: u)
  length : lexed.more = u.length
  inside : Inside s₂ table frame outer c (u ++ r) lexed
  run : run table (s₂.take frame lexed c (u ++ r)) r = .ok s₁
  added : s₁.emitted = (s₂.take frame lexed c (u ++ r)).emitted ++ more
  laid : laid more = (h, rows)
  quote : frame = .quote → g = []
  solid : TokenKind.layout.contains lexed.kind = false

theorem run_take (hrun : run table (s.take frame lexed c t) (t.drop lexed.more) = .ok s₁)
    (hnew : s₁.emitted = s.emitted ++ new) :
    ∃ more, new = (lexed.kind, c :: t.take lexed.more) :: more ∧
      s₁.emitted = (s.take frame lexed c t).emitted ++ more := by
  obtain ⟨more, hmore, -, -⟩ := run_emits hrun
  refine ⟨more, ?_, hmore⟩
  rw [hmore, emitted_take, List.append_assoc] at hnew
  exact (List.append_cancel_left hnew).symm

theorem run_first {h : List Char} {x : Lexeme} {rows : List (Lexeme × List Char)}
    (hrun : run table s t = .ok s₁) (hframes : s.frames = frame :: outer)
    (hnew : s₁.emitted = s.emitted ++ new) (hlaid : laid new = (g, (x, h) :: rows)) :
    ∃ s₂ c u r lexed more, First table s frame outer s₁ t g x h rows s₂ c u r lexed more := by
  fun_induction run table s t generalizing new g with
  | case1 s =>
    cases hrun
    obtain rfl : new = [] := by simpa using hnew
    cases hlaid
  | case2 s c t e hstep => cases hrun
  | case3 s c t s₂ rest hstep ih =>
    obtain ⟨lexed, hinside, rfl, rfl⟩ := inside_of_step hframes hstep
    obtain ⟨new₂, hsplit, hnew₂⟩ := run_take hrun hnew
    have hlength : (t.take lexed.more).length = lexed.more :=
      List.length_take_of_le hinside.more_le
    have htext : t.take lexed.more ++ t.drop lexed.more = t := List.take_append_drop _ _
    rw [hsplit] at hlaid
    cases hk : TokenKind.layout.contains lexed.kind with
    | true =>
      obtain ⟨halike, hframes₂, hmeaningful⟩ := alike_take_layout hframes hinside hk
      rw [laid_cons_layout (l := (lexed.kind, _)) hk] at hlaid
      obtain ⟨rfl, hrows⟩ := Prod.mk.inj hlaid
      obtain ⟨s₃, d, u, r, lexed', more, hfirst⟩ := ih hrun hframes₂ hnew₂ (Prod.ext rfl hrows)
      refine ⟨s₃, d, u, r, lexed', more, { hfirst with
        alike := halike.trans hfirst.alike
        emitted := hfirst.emitted.trans hmeaningful
        text := ?_
        quote := fun hq => absurd hq (hinside.of_layout hk).1 }⟩
      rw [List.append_assoc, ← hfirst.text, List.cons_append, htext]
    | false =>
      rw [laid_cons_solid (l := (lexed.kind, _)) hk] at hlaid
      obtain ⟨rfl, hcells⟩ := Prod.mk.inj hlaid
      obtain ⟨hx, hrows⟩ := List.cons.inj hcells
      obtain ⟨rfl, rfl⟩ := Prod.mk.inj hx
      refine ⟨s, c, t.take lexed.more, t.drop lexed.more, lexed, new₂, ?_⟩
      exact {
        frames := hframes
        alike := ⟨rfl, rfl, rfl⟩
        emitted := rfl
        text := by rw [List.nil_append, htext]
        lexeme := rfl
        length := hlength.symm
        inside := by rwa [htext]
        run := by rwa [htext]
        added := by rwa [htext]
        laid := Prod.ext rfl hrows
        quote := fun _ => rfl
        solid := hk }

theorem run_layout_frames (hrun : run table s t = .ok s₁) (hframes : s.frames = frame :: outer)
    (hnew : s₁.emitted = s.emitted ++ new) (hlaid : laid new = (g, [])) :
    s₁.frames = frame :: outer := by
  fun_induction run table s t generalizing new g with
  | case1 s =>
    cases hrun
    exact hframes
  | case2 s c t e hstep => cases hrun
  | case3 s c t s₂ rest hstep ih =>
    obtain ⟨lexed, hinside, rfl, rfl⟩ := inside_of_step hframes hstep
    obtain ⟨new₂, hsplit, hnew₂⟩ := run_take hrun hnew
    obtain ⟨hlayout, -⟩ := layout_of_laid hlaid
    have hk : TokenKind.layout.contains lexed.kind = true :=
      hlayout (lexed.kind, c :: t.take lexed.more) (by rw [hsplit]; exact List.mem_cons_self)
    obtain ⟨-, hframes₂, -⟩ := alike_take_layout hframes hinside hk
    rw [hsplit, laid_cons_layout (l := (lexed.kind, _)) hk] at hlaid
    exact ih hrun hframes₂ hnew₂ (Prod.ext rfl (Prod.mk.inj hlaid).2)

/-- Layout in front of a run in code. -/
theorem run_gap (hg : IsGap g) (hframes : s.frames = frame :: outer) (hframe : frame ≠ .quote)
    (hhead : ∀ a ∈ t.head?, Text.isLayout a = false) :
    ∃ s₂ lay, run table s (g ++ t) = run table s₂ t ∧ s₂.frames = frame :: outer ∧ Alike s s₂ ∧
      s₂.emitted = s.emitted ++ lay ∧ (∀ l ∈ lay, Lexeme.isLayout l = true) ∧ spell lay = g := by
  generalize hn : g.length = n
  induction n using Nat.strongRecOn generalizing s g with
  | ind n ih =>
    cases g with
    | nil => exact ⟨s, [], rfl, hframes, ⟨rfl, rfl, rfl⟩, by simp, nofun, rfl⟩
    | cons a g =>
      have ha := hg a List.mem_cons_self
      have hinside : Inside s table frame outer a (g ++ t) _ :=
        .read hframe (endAt?_of_layout ha) (.layout ha)
      obtain ⟨hcls, htake⟩ := Lexeme.layoutAt_of_layout ha (g ++ t)
      have hmore := Lexeme.layoutAt_le a (g ++ t)
      generalize hm : (Lexeme.layoutAt a (g ++ t)).2 = m at htake hmore
      have hle : m ≤ g.length := by
        refine Nat.le_of_not_lt fun hlt => ?_
        cases t with
        | nil =>
          rw [List.append_nil] at hmore
          omega
        | cons b t =>
          have hb : b ∈ (g ++ b :: t).take m := by
            obtain ⟨k, rfl⟩ : ∃ k, m = g.length + (k + 1) := ⟨m - g.length - 1, by omega⟩
            rw [List.take_length_add_append]
            simp
          have := htake b hb
          rw [hhead b rfl] at this
          cases this
      have hk : TokenKind.layout.contains (Lexeme.layoutAt a (g ++ t)).1.codeKind = true := by
        rw [codeKind_tells, bne_iff_ne]
        exact hcls
      obtain ⟨halike, hframes₂, -⟩ := alike_take_layout hframes hinside hk
      obtain ⟨s₃, lay, hrun, hframes₃, halike₃, hemitted, hlay, hspell⟩ :=
        ih (g.drop m).length (by rw [List.length_drop, ← hn, List.length_cons]; omega)
          (fun b hb => hg b (List.mem_cons_of_mem a (List.mem_of_mem_drop hb))) hframes₂ rfl
      refine ⟨s₃, ((Lexeme.layoutAt a (g ++ t)).1.codeKind, a :: g.take m) :: lay, ?_, hframes₃,
        halike.trans halike₃, ?_, ?_, ?_⟩
      · rw [List.cons_append, run_cons (step_of_inside hframes hinside), ← hrun,
          ← List.drop_append_of_le_length hle, ← hm]
      · rw [hemitted, emitted_take, hm, List.take_append_of_le_length hle, List.append_assoc]
        rfl
      · intro l hl
        rcases List.mem_cons.1 hl with rfl | hl
        · exact hk
        · exact hlay l hl
      · rw [spell_cons, hspell, List.cons_append, List.take_append_drop]

/-! ### What can come next -/

theorem operator?_start {more : Nat} (h : s.operator? table c t = some more) :
    ∃ op ∈ table.operators, ∃ r, op.after? (c :: t) = some r ∧ more = t.length - r.length := by
  unfold operator? at h
  split at h
  · cases h
  · rename_i r hafter
    obtain ⟨op, hop, hr⟩ := List.exists_of_findSome?_eq_some hafter
    refine ⟨op, hop, r, hr, ?_⟩
    split at h
    · cases h
    · exact (Option.some.inj h).symm

theorem Operator.first_word {op : Operator} {w r : List Char} {ws : List (List Char)}
    (h : op.after? t = some r) (hwords : op.words = w :: ws) : w <+: t := by
  obtain ⟨h, -⟩ := TwigStyle.Operator.after?_eq_some_iff.1 h
  rw [hwords] at h
  cases ws with
  | nil => exact ⟨r, (Operator.afterWords?_singleton.1 h).symm⟩
  | cons w' ws =>
    obtain ⟨d, rest, rfl, -, -⟩ := Operator.afterWords?_cons_cons.1 h
    exact List.prefix_append _ _

theorem operator?_eq_none (h : ∀ op ∈ table.operators, ∃ w ws, op.words = w :: ws ∧
    ¬w <+: c :: t) : s.operator? table c t = none := by
  cases hop : s.operator? table c t with
  | none => rfl
  | some more =>
    obtain ⟨op, hmem, r, hr, -⟩ := operator?_start hop
    obtain ⟨w, ws, hwords, hno⟩ := h op hmem
    exact absurd (Operator.first_word hr hwords) hno

/-- No operator of the template language starts with this character. -/
def startsNoOperator (c : Char) : Bool :=
  OperatorTable.default.operators.all fun op => op.words.head?.any fun w => w.head?.any (· != c)

theorem operator?_eq_none_of_start (h : startsNoOperator c = true) :
    s.operator? OperatorTable.default c t = none := by
  refine operator?_eq_none fun op hop => ?_
  have hstart := List.all_eq_true.1 h op hop
  cases hwords : op.words with
  | nil => simp [hwords] at hstart
  | cons w ws =>
    refine ⟨w, ws, rfl, fun hpre => ?_⟩
    cases w with
    | nil => simp [hwords] at hstart
    | cons a w =>
      simp only [hwords, List.head?_cons, Option.any_some, bne_iff_ne, ne_eq] at hstart
      exact hstart (List.cons_prefix_cons.1 hpre).1

theorem dropTernaries_eq_nil (h : hasOpenBracket bs = false) : dropTernaries bs = [] := by
  induction bs with
  | nil => rfl
  | cons b bs ih =>
    simp only [hasOpenBracket, List.any_cons, Bool.or_eq_false_iff, bne_eq_false_iff_eq] at h
    have hb : (b.shape == BracketShape.ternary) = true := beq_iff_eq.2 h.1
    rw [dropTernaries, List.dropWhile_cons, hb]
    exact ih h.2

/-- A closing brace is nothing where no bracket is open. -/
theorem Reading.not_brace (hopen : hasOpenBracket frame.brackets = false) :
    ¬Reading s OperatorTable.default frame outer '\x7d' t lexed := by
  intro h
  have hop : s.operator? OperatorTable.default '\x7d' t = none :=
    operator?_eq_none_of_start (by decide +kernel)
  cases h with
  | layout hc => cases hc
  | spread _ h | arrow _ _ h => cases h
  | operator _ h =>
    rw [hop] at h
    cases h
  | name _ _ h | number _ _ _ h => cases h
  | punctuation _ _ _ _ h =>
    have hcloser : s.punctuation? frame outer '\x7d' = some (s.closer frame outer '\x7d' .curly) :=
      rfl
    rw [hcloser, closer, dropTernaries_eq_nil hopen] at h
    cases h
  | string _ _ hc | quote _ _ hc => cases hc

theorem Reading.frames_of_sign (hc : c = '-' ∨ c = '~' ∨ c = '%')
    (h : Reading s table frame outer c t lexed) : lexed.frames = frame :: outer := by
  cases h with
  | layout | spread | arrow | operator => rfl
  | name _ _ h | number _ _ _ h => rcases hc with rfl | rfl | rfl <;> cases h
  | punctuation _ _ _ _ h => rcases hc with rfl | rfl | rfl <;> cases h
  | string | quote => rcases hc with rfl | rfl | rfl <;> contradiction

theorem operator?_question_ne : s.operator? OperatorTable.default '?' t ≠ some 0 := by
  intro h
  obtain ⟨hafter, -⟩ := operator?_eq_some (u := []) default_proper h rfl
  obtain ⟨op, hop, hr⟩ := List.exists_of_findSome?_eq_some hafter
  obtain ⟨hwords, -⟩ := Operator.after?_eq_some_iff.1 hr
  have husual := isUsual_of_mem_default hop
  have hno : OperatorTable.default.operators.all (·.words != [['?']]) = true := by decide +kernel
  have hne : op.words ≠ [['?']] := by simpa using List.all_eq_true.1 hno op hop
  unfold Operator.isUsual at husual
  split at husual
  · rename_i w hw
    rw [hw] at hwords hne
    have htext : ['?'] ++ t = w ++ t := Operator.afterWords?_singleton.1 hwords
    exact hne (by rw [List.append_cancel_right htext])
  · rename_i w₁ w₂ hw
    simp only [Bool.and_eq_true, Bool.not_eq_true', List.isEmpty_eq_false_iff, List.all_eq_true]
      at husual
    rw [hw] at hwords
    obtain ⟨d, rest, htext, -, -⟩ := Operator.afterWords?_cons_cons.1 hwords
    cases w₁ with
    | nil => exact husual.1.1.1.1 rfl
    | cons a w₁ =>
      obtain ⟨rfl, -⟩ := List.cons.inj htext
      cases husual.1.1.1.2 '?' List.mem_cons_self
  · cases husual

theorem Reading.frames_of_question
    (h : Reading s OperatorTable.default frame outer '?' t lexed) (hmore : lexed.more = 0) :
    ∃ i line bs, lexed.frames = frame.withBrackets (⟨.ternary, i, line⟩ :: bs) :: outer := by
  cases h with
  | layout hc => cases hc
  | spread _ h | arrow _ _ h => cases h
  | operator _ h =>
    simp only at hmore
    subst hmore
    exact absurd h operator?_question_ne
  | name _ _ h | number _ _ _ h => cases h
  | punctuation _ _ _ _ h =>
    cases h
    exact ⟨_, _, _, rfl⟩
  | string _ _ hc | quote _ _ hc => cases hc

theorem Reading.colon {i line : Nat} (hbs : frame.brackets = ⟨.ternary, i, line⟩ :: bs)
    (h : Reading s OperatorTable.default frame outer ':' t lexed) : lexed.kind = .operator := by
  cases h with
  | layout hc => cases hc
  | spread _ h | arrow _ _ h => cases h
  | operator => rfl
  | name _ _ h | number _ _ _ h => cases h
  | punctuation _ _ _ _ h =>
    have hcolon : s.punctuation? frame outer ':' =
        some (.ok ⟨.operator, 0, frame.withBrackets bs :: outer, none⟩) := by
      unfold punctuation?
      rw [hbs]
      rfl
    rw [hcolon] at h
    cases h
    rfl
  | string _ _ hc | quote _ _ hc => cases hc

end Lexer

end TwigStyle
