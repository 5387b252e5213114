import TwigStyle.Proofs.Alike

/-!
# What a lexeme looks at

A lexeme is read from the text in front of the lexer, and the text behind the lexeme has a say in
where it ends.  `Transfer table v r r'` says that the lexeme `v` cannot tell a rest `r` from a rest
`r'`: none of the tests on the way to it comes out differently.  Then the step that reads `v` in
front of `r` reads it in front of `r'` too, and leaves the lexer in the very same state
(`step_transfer`).
-/

namespace TwigStyle

variable {r r' t : List Char} {n : Nat} {frame : Frame} {kind : TokenKind} {table : OperatorTable}
  {c : Char}

namespace Text

theorem after?_eq_some_iff {w t r : List Char} : after? w t = some r ↔ t = w ++ r := by
  induction w generalizing t with
  | nil => simp [after?, eq_comm]
  | cons c w ih =>
    cases t with
    | nil => simp [after?]
    | cons d t =>
      simp only [after?, List.cons_append, List.cons.injEq]
      split
      · rename_i hcd
        rw [ih]
        simp [hcd]
      · rename_i hcd
        simp [Ne.symm hcd]

theorem after?_append (w r : List Char) : after? w (w ++ r) = some r := after?_eq_some_iff.2 rfl

end Text

/-! ### Operators of a table -/

/-- The words of an operator: there is at least one, and none is empty or holds a blank. -/
def Operator.Proper (op : Operator) : Prop :=
  op.words ≠ [] ∧ ∀ w ∈ op.words, w ≠ [] ∧ ∀ c ∈ w, Text.isBlank c = false

/-- Every operator of the table is made of proper words. -/
def OperatorTable.Proper (table : OperatorTable) : Prop := ∀ op ∈ table.operators, op.Proper

theorem default_proper : OperatorTable.default.Proper := by
  intro op hop
  have hall : OperatorTable.default.operators.all (fun op => !op.words.isEmpty &&
      op.words.all fun w => !w.isEmpty && w.all (!Text.isBlank ·)) = true := by decide +kernel
  have h := List.all_eq_true.1 hall op hop
  simp at h
  refine ⟨h.1, fun w hw => ⟨(h.2 w hw).1, (h.2 w hw).2⟩⟩

namespace Operator

variable {op : Operator} {ws : List (List Char)} {t r w : List Char}

theorem afterWords?_singleton : afterWords? [w] t = some r ↔ t = w ++ r := Text.after?_eq_some_iff

theorem afterWords?_cons_cons {w' : List Char} :
    afterWords? (w :: w' :: ws) t = some r ↔ ∃ c rest, t = w ++ c :: rest ∧
      Text.isBlank c = true ∧ afterWords? (w' :: ws) (rest.dropWhile Text.isBlank) = some r := by
  rw [afterWords?]
  · cases hafter : Text.after? w t with
    | none =>
      simp only [reduceCtorEq, false_iff]
      rintro ⟨c, rest, ht, -, -⟩
      rw [Text.after?_eq_some_iff.2 ht] at hafter
      cases hafter
    | some u =>
      have hu := Text.after?_eq_some_iff.1 hafter
      cases u with
      | nil =>
        simp only [reduceCtorEq, false_iff]
        rintro ⟨c, rest, ht, -, -⟩
        rw [hu] at ht
        simpa using List.append_cancel_left ht
      | cons d u =>
        simp only
        split
        · rename_i hblank
          constructor
          · intro h
            exact ⟨d, u, hu, hblank, h⟩
          · rintro ⟨c, rest, ht, -, h⟩
            rw [hu] at ht
            cases List.append_cancel_left ht
            exact h
        · rename_i hblank
          simp only [reduceCtorEq, false_iff]
          rintro ⟨c, rest, ht, hc, -⟩
          rw [hu] at ht
          cases List.append_cancel_left ht
          exact hblank hc
  · exact nofun

theorem afterWords?_suffix (h : afterWords? ws t = some r) : ∃ v, t = v ++ r := by
  induction ws generalizing t with
  | nil =>
    cases h
    exact ⟨[], rfl⟩
  | cons w ws ih =>
    cases ws with
    | nil => exact ⟨w, afterWords?_singleton.1 h⟩
    | cons w' ws =>
      obtain ⟨c, rest, rfl, -, h⟩ := afterWords?_cons_cons.1 h
      obtain ⟨v, hv⟩ := ih h
      refine ⟨w ++ c :: (rest.takeWhile Text.isBlank ++ v), ?_⟩
      rw [List.append_assoc, List.cons_append, List.append_assoc, ← hv,
        List.takeWhile_append_dropWhile]

theorem after?_eq_some_iff :
    op.after? t = some r ↔
      afterWords? op.words t = some r ∧ (op.needsBoundary = true → atBoundary r = true) := by
  unfold after?
  cases hwords : afterWords? op.words t with
  | none => simp
  | some u =>
    cases hneeds : op.needsBoundary <;> cases hat : atBoundary u <;> simp <;> grind

theorem Proper.after?_suffix (hop : op.Proper) (h : op.after? t = some r) :
    ∃ v, v ≠ [] ∧ t = v ++ r := by
  obtain ⟨hwords, -⟩ := after?_eq_some_iff.1 h
  obtain ⟨hne, hproper⟩ := hop
  cases hws : op.words with
  | nil => exact absurd hws hne
  | cons w ws =>
    rw [hws] at hwords hproper
    have hw : w ≠ [] := (hproper w List.mem_cons_self).1
    cases ws with
    | nil => exact ⟨w, hw, afterWords?_singleton.1 hwords⟩
    | cons w' ws =>
      obtain ⟨c, rest, rfl, -, hrest⟩ := afterWords?_cons_cons.1 hwords
      obtain ⟨v, hv⟩ := afterWords?_suffix hrest
      refine ⟨w ++ c :: (rest.takeWhile Text.isBlank ++ v), by simp, ?_⟩
      rw [List.append_assoc, List.cons_append, List.append_assoc, ← hv,
        List.takeWhile_append_dropWhile]

end Operator

theorem OperatorTable.after?_eq_none_iff :
    table.after? t = none ↔ ∀ op ∈ table.operators, op.after? t = none := by
  simp [after?]

theorem OperatorTable.after?_congr {t' : List Char}
    (hnone : ∀ op ∈ table.operators, op.after? t = none → op.after? t' = none)
    (hsome : ∀ op ∈ table.operators, op.after? t = some r → op.after? t' = some r')
    (h : table.after? t = some r) : table.after? t' = some r' := by
  obtain ⟨operators⟩ := table
  unfold after? at h ⊢
  simp only at hnone hsome h ⊢
  induction operators with
  | nil => cases h
  | cons op operators ih =>
    rw [List.findSome?_cons] at h ⊢
    cases hop : op.after? t with
    | none =>
      rw [hop] at h
      rw [hnone op List.mem_cons_self hop]
      exact ih (fun o ho => hnone o (List.mem_cons_of_mem _ ho))
        (fun o ho => hsome o (List.mem_cons_of_mem _ ho)) h
    | some u =>
      rw [hop] at h
      cases h
      rw [hsome op List.mem_cons_self hop]

/-! ### Ends that look ahead no further -/

namespace Lexeme

variable {r r' t u : List Char} {p : Char → Bool} {n : Nat} {c : Char}

theorem runLength_le (p : Char → Bool) (t : List Char) : runLength p t ≤ t.length :=
  (List.takeWhile_sublist p).length_le

theorem runLength_cons (p : Char → Bool) (c : Char) (t : List Char) :
    runLength p (c :: t) = if p c then runLength p t + 1 else 0 := by
  unfold runLength
  rw [List.takeWhile_cons]
  split <;> rfl

theorem runLength_append_eq_iff :
    runLength p (u ++ r) = u.length ↔ (∀ c ∈ u, p c = true) ∧ ∀ c ∈ r.head?, p c = false := by
  induction u with
  | nil =>
    cases r with
    | nil => simp [runLength]
    | cons d r => cases hd : p d <;> simp [runLength_cons, hd]
  | cons c u ih => cases hc : p c <;> simp [runLength_cons, hc, ih]

theorem head?_drop_runLength (p : Char → Bool) (t : List Char) :
    ∀ a ∈ (t.drop (runLength p t)).head?, p a = false := by
  have hrun : runLength p (t.take (runLength p t) ++ t.drop (runLength p t)) =
      (t.take (runLength p t)).length := by
    rw [List.take_append_drop, List.length_take, Nat.min_eq_left (runLength_le p t)]
  exact (runLength_append_eq_iff.1 hrun).2

theorem runLength_eq_of_head (hhead : r.head? = r'.head?) (h : runLength p (u ++ r) = u.length) :
    runLength p (u ++ r') = u.length := by
  rw [runLength_append_eq_iff] at h ⊢
  rwa [← hhead]

theorem fractionLength_le (t : List Char) : fractionLength t ≤ t.length := by
  unfold fractionLength
  split
  · rename_i t
    have := runLength_le Char.isDigit t
    rw [← digitsLength] at this
    split
    · exact Nat.zero_le _
    · rw [List.length_cons]
      omega
  · exact Nat.zero_le _

theorem exponentLength_le (t : List Char) : exponentLength t ≤ t.length := by
  unfold exponentLength
  split
  · rename_i e sign t
    have := runLength_le Char.isDigit t
    rw [← digitsLength] at this
    split
    · rw [List.length_cons, List.length_cons]
      omega
    · exact Nat.zero_le _
  · exact Nat.zero_le _

theorem numberLength_le (t : List Char) : numberLength t ≤ t.length := by
  unfold numberLength
  simp only
  split
  · exact Nat.zero_le _
  · have hwhole := runLength_le Char.isDigit t
    have hfraction := fractionLength_le (t.drop (digitsLength t))
    have hexponent := exponentLength_le
      (t.drop (digitsLength t + fractionLength (t.drop (digitsLength t))))
    simp only [List.length_drop, digitsLength] at hwhole hfraction hexponent ⊢
    omega

theorem literalLength_le (t : List Char) : literalLength t ≤ t.length := by
  fun_induction literalLength t <;> simp only [List.length_cons, List.length_nil] <;> omega

theorem layoutAt_le (c : Char) (t : List Char) : (layoutAt c t).2 ≤ t.length := by
  unfold layoutAt
  repeat' split
  all_goals first
    | exact runLength_le _ _
    | exact Nat.zero_le _
    | skip
  rename_i hhead
  cases t with
  | nil => simp at hhead
  | cons d t => simp

theorem singleQuotedLength?_take (r' : List Char) (h : singleQuotedLength? t = some n) :
    n ≤ t.length ∧ singleQuotedLength? (t.take n ++ r') = some n := by
  fun_induction singleQuotedLength? t generalizing n with
  | case1 | case3 => cases h
  | case2 t =>
    cases h
    exact ⟨by simp, by simp [singleQuotedLength?]⟩
  | case4 c t ih =>
    obtain ⟨m, hm, rfl⟩ := Option.map_eq_some_iff.1 h
    obtain ⟨hle, htake⟩ := ih hm
    refine ⟨by simp only [List.length_cons]; omega, ?_⟩
    simp [singleQuotedLength?, htake]
  | case5 c t hquote hlast hescape ih =>
    obtain ⟨m, hm, rfl⟩ := Option.map_eq_some_iff.1 h
    obtain ⟨hle, htake⟩ := ih hm
    refine ⟨by simp only [List.length_cons]; omega, ?_⟩
    have hplain : c ≠ '\\' := by
      intro hc
      cases t with
      | nil => exact hlast hc rfl
      | cons d t => exact hescape d t hc rfl
    rw [List.take_succ_cons, List.cons_append, singleQuotedLength?, htake]
    · rfl
    · exact hquote
    · exact fun hc => absurd hc hplain
    · exact fun _ _ hc => absurd hc hplain

theorem getLast?_singleQuoted (h : singleQuotedLength? t = some n) :
    ∀ c, (c :: t.take n).getLast? = some '\'' := by
  fun_induction singleQuotedLength? t generalizing n with
  | case1 | case3 => cases h
  | case2 t =>
    cases h
    exact fun _ => rfl
  | case4 d t ih =>
    obtain ⟨m, hm, rfl⟩ := Option.map_eq_some_iff.1 h
    intro c
    rw [List.take_succ_cons, List.take_succ_cons, List.getLast?_cons_cons, List.getLast?_cons_cons]
    exact ih hm d
  | case5 d t _ _ _ ih =>
    obtain ⟨m, hm, rfl⟩ := Option.map_eq_some_iff.1 h
    intro c
    rw [List.take_succ_cons, List.getLast?_cons_cons]
    exact ih hm d

/-- The literal part of a double-quoted string ends in front of this text. -/
def EndsLiteral (r : List Char) : Prop :=
  r.head? = some '"' ∨ r.take 2 = ['#', '\x7b']

theorem EndsLiteral.literalLength (h : EndsLiteral r) : literalLength r = 0 := by
  rcases r with _ | ⟨c, _ | ⟨d, r⟩⟩
  · rfl
  · rcases h with h | h
    · cases h
      rfl
    · cases h
  · rcases h with h | h
    · cases h
      rfl
    · simp only [List.take_succ_cons, List.take_zero, List.cons.injEq, and_true] at h
      obtain ⟨rfl, rfl⟩ := h
      rfl

theorem drop_literalLength (t : List Char) :
    t.drop (literalLength t) = [] ∨ EndsLiteral (t.drop (literalLength t)) := by
  fun_induction literalLength t with
  | case1 | case2 => exact .inl rfl
  | case3 c t ih =>
    rw [Nat.add_comm]
    exact ih
  | case4 t => exact .inr (.inl rfl)
  | case5 t => exact .inr (.inr rfl)
  | case6 c t _ _ _ _ ih =>
    rw [Nat.add_comm]
    exact ih

theorem literalLength_escape (d : Char) (t : List Char) :
    literalLength ('\\' :: d :: t) = 2 + literalLength t := by
  rw [literalLength]

theorem literalLength_cons (hescape : c ≠ '\\') (hquote : c ≠ '"')
    (hstart : ¬(c = '#' ∧ t.head? = some '\x7b')) :
    literalLength (c :: t) = 1 + literalLength t := by
  rw [literalLength]
  · exact fun hc _ => hescape hc
  · exact fun _ _ hc _ => hescape hc
  · exact hquote
  · rintro tail rfl rfl
    exact hstart ⟨rfl, rfl⟩

theorem literalLength_pos (hquote : c ≠ '"') (hstart : ¬(c = '#' ∧ t.head? = some '\x7b')) :
    0 < literalLength (c :: t) := by
  by_cases hescape : c = '\\'
  · subst hescape
    cases t with
    | nil => simp [literalLength]
    | cons d t =>
      rw [literalLength_escape]
      omega
  · rw [literalLength_cons hescape hquote hstart]
    omega

theorem literalLength_append (hr : EndsLiteral r) (hr' : EndsLiteral r')
    (h : literalLength (u ++ r) = u.length) : literalLength (u ++ r') = u.length := by
  induction hn : u.length using Nat.strongRecOn generalizing u with
  | _ n ih =>
    subst hn
    rcases u with _ | ⟨c, u⟩
    · exact hr'.literalLength
    · by_cases hescape : c = '\\'
      · -- A backslash takes a second character, which cannot belong to the end of the string.
        subst hescape
        rcases u with _ | ⟨d, u⟩
        · rcases r with _ | ⟨d, r⟩
          · rcases hr with hr | hr <;> cases hr
          · rw [List.singleton_append, literalLength_escape, List.length_singleton] at h
            omega
        · simp only [List.cons_append, literalLength_escape, List.length_cons] at h ⊢
          rw [ih u.length (by simp only [List.length_cons]; omega) (by omega) rfl]
          omega
      · by_cases hquote : c = '"'
        · subst hquote
          simp [literalLength] at h
        · have hhead : ∀ {q : List Char}, EndsLiteral q → q.head? ≠ some '\x7b' := by
            rintro (_ | ⟨d, q⟩) (hq | hq) <;> simp_all
          by_cases hstart : c = '#' ∧ (u ++ r).head? = some '\x7b'
          · obtain ⟨rfl, hstart⟩ := hstart
            rcases u with _ | ⟨d, u⟩
            · exact absurd hstart (hhead hr)
            · cases hstart
              simp [literalLength] at h
          · have hstart' : ¬(c = '#' ∧ (u ++ r').head? = some '\x7b') := by
              rintro ⟨hc, hbrace⟩
              rcases u with _ | ⟨d, u⟩
              · exact hhead hr' hbrace
              · exact hstart ⟨hc, hbrace⟩
            rw [List.cons_append, literalLength_cons hescape hquote hstart, List.length_cons] at h
            rw [List.cons_append, literalLength_cons hescape hquote hstart', List.length_cons,
              ih u.length (by simp) (by omega) rfl]
            omega

end Lexeme

/-! ### The ends of constructs -/

/-- The spellings of the end of a construct; a string ends in its own way. -/
def Frame.ends : Frame → List (List Char)
  | .variable _ => ["\x7d\x7d".toList, "-\x7d\x7d".toList, "~\x7d\x7d".toList]
  | .block _ _ => ["%\x7d".toList, "-%\x7d".toList, "~%\x7d".toList]
  | .quote => []
  | .interpolation _ => [['\x7d']]

/-- The kind of the end of a construct. -/
def Frame.endKind : Frame → TokenKind
  | .variable _ => .variableEnd
  | .block _ _ => .blockEnd
  | .quote => .quoteEnd
  | .interpolation _ => .interpolationEnd

theorem Delimiter.variableEndLength?_eq_some_iff : variableEndLength? t = some n ↔
      ∃ v ∈ ["\x7d\x7d".toList, "-\x7d\x7d".toList, "~\x7d\x7d".toList], n = v.length ∧ v <+: t := by
  unfold variableEndLength?
  split
  · simp [List.cons_prefix_cons, eq_comm]
  · rename_i c t hne
    cases hc : isTrimMarker c <;> simp [isTrimMarker] at hc <;>
      simp [List.cons_prefix_cons] <;> grind
  · rename_i h1 h2
    simp only [reduceCtorEq, List.mem_cons, List.not_mem_nil, or_false, exists_eq_or_imp,
      exists_eq_left, false_iff]
    rintro (⟨-, r, rfl⟩ | ⟨-, r, rfl⟩ | ⟨-, r, rfl⟩)
    · exact h1 _ rfl
    · exact h2 _ _ rfl
    · exact h2 _ _ rfl

theorem Delimiter.blockEndLength?_eq_some_iff : blockEndLength? t = some n ↔
      ∃ v ∈ ["%\x7d".toList, "-%\x7d".toList, "~%\x7d".toList], n = v.length ∧ v <+: t := by
  unfold blockEndLength?
  split
  · simp [List.cons_prefix_cons, eq_comm]
  · rename_i c t
    cases hc : isTrimMarker c <;> simp [isTrimMarker] at hc <;>
      simp [List.cons_prefix_cons] <;> grind
  · rename_i h1 h2
    simp only [reduceCtorEq, List.mem_cons, List.not_mem_nil, or_false, exists_eq_or_imp,
      exists_eq_left, false_iff]
    rintro (⟨-, r, rfl⟩ | ⟨-, r, rfl⟩ | ⟨-, r, rfl⟩)
    · exact h1 _ rfl
    · exact h2 _ _ rfl
    · exact h2 _ _ rfl

/-- A construct ends where one of its ends is spelled and no bracket is open. -/
theorem Frame.endAt?_eq_some_iff :
    frame.endAt? t = some (kind, n) ↔ hasOpenBracket frame.brackets = false ∧
      ∃ v ∈ frame.ends, kind = frame.endKind ∧ n = v.length ∧ v <+: t := by
  unfold endAt?
  cases hopen : hasOpenBracket frame.brackets with
  | true => simp
  | false =>
    cases frame with
    | «variable» bs =>
      simp only [Bool.false_eq_true, if_false, Option.map_eq_some_iff,
        Delimiter.variableEndLength?_eq_some_iff, ends, endKind, Prod.mk.injEq]
      grind
    | block name bs =>
      simp only [Bool.false_eq_true, if_false, Option.map_eq_some_iff,
        Delimiter.blockEndLength?_eq_some_iff, ends, endKind, Prod.mk.injEq]
      grind
    | quote => simp [ends]
    | interpolation bs =>
      cases t with
      | nil => simp [ends]
      | cons d t =>
        simp only [Bool.false_eq_true, if_false, List.head?_cons, ends, endKind, List.mem_singleton,
          exists_eq_left, List.cons_prefix_cons, List.nil_prefix]
        grind

theorem Frame.mem_ends (h : frame.endAt? (c :: t) = some (kind, n)) :
    c :: t.take (n - 1) ∈ frame.ends := by
  obtain ⟨-, v, hv, -, rfl, r, hr⟩ := Frame.endAt?_eq_some_iff.1 h
  cases v with
  | nil => cases frame <;> simp [Frame.ends] at hv
  | cons d v =>
    obtain ⟨rfl, rfl⟩ := List.cons.inj hr
    simpa using hv

/-- The ends of all constructs. -/
def Frame.allEnds : List (List Char) :=
  ["\x7d\x7d".toList, "-\x7d\x7d".toList, "~\x7d\x7d".toList, "%\x7d".toList, "-%\x7d".toList,
    "~%\x7d".toList, "\x7d".toList]

theorem Frame.mem_allEnds (h : frame.endAt? (c :: t) = some (kind, n)) :
    c :: t.take (n - 1) ∈ Frame.allEnds := by
  have hsub : frame.ends ⊆ allEnds := by cases frame <;> simp [ends, allEnds]
  exact hsub (Frame.mem_ends h)

theorem Frame.endAt?_eq_none_iff : frame.endAt? t = none ↔
      (hasOpenBracket frame.brackets = false → ∀ v ∈ frame.ends, ¬v <+: t) := by
  constructor
  · intro h hopen v hv hpre
    rw [Frame.endAt?_eq_some_iff.2 ⟨hopen, v, hv, rfl, rfl, hpre⟩] at h
    cases h
  · intro h
    cases hend : frame.endAt? t with
    | none => rfl
    | some e =>
      obtain ⟨hopen, v, hv, -, -, hpre⟩ := Frame.endAt?_eq_some_iff.1 hend
      exact absurd hpre (h hopen v hv)

theorem Frame.endAt?_transfer {v : List Char} (h : frame.endAt? (v ++ r) = some (kind, n))
    (hn : n ≤ v.length) : frame.endAt? (v ++ r') = some (kind, n) := by
  obtain ⟨hopen, w, hw, hkind, rfl, hpre⟩ := Frame.endAt?_eq_some_iff.1 h
  have hwv : w <+: v := List.prefix_of_prefix_length_le hpre (List.prefix_append v r) hn
  exact Frame.endAt?_eq_some_iff.2 ⟨hopen, w, hw, hkind, rfl, hwv.trans (List.prefix_append v r')⟩

/-! ### Lexemes that cannot tell two rests apart -/

/-- The lexeme `v` is the same in front of `r` and in front of `r'`.  Where a name belongs to an
    attribute or a filter (`access`), no operator is spelled with letters. -/
structure Transfer (table : OperatorTable) (access : Bool) (v r r' : List Char) : Prop where
  spread : Text.after? "...".toList (v ++ r) = none → Text.after? "...".toList (v ++ r') = none
  arrow : Text.after? "=>".toList (v ++ r) = none → Text.after? "=>".toList (v ++ r') = none
  others : (v.head?.any Text.isAsciiLetter && access) = false →
    ∀ op ∈ table.operators, op.after? (v ++ r) = none → op.after? (v ++ r') = none
  operator : ∀ op ∈ table.operators, op.after? (v ++ r) = some r → op.after? (v ++ r') = some r'
  name : Lexeme.runLength Lexeme.continuesName (v ++ r) = v.length →
    Lexeme.runLength Lexeme.continuesName (v ++ r') = v.length
  number : Lexeme.numberLength (v ++ r) = v.length → Lexeme.numberLength (v ++ r') = v.length
  layout : (v.head?.any Text.isLayout) = true → r.head? = r'.head?

namespace Lexer

variable {s : Lexer} {table : OperatorTable} {frame : Frame} {outer : List Frame} {c : Char}
  {u r r' t : List Char} {lexed : Lexed}

theorem Plain.transfer {access : Bool} (h : Plain c (u ++ r))
    (ht : Transfer table access (c :: u) r r') : Plain c (u ++ r') :=
  ⟨h.solid, ht.spread h.noSpread, ht.arrow h.noArrow⟩

theorem operator?_eq_some (htable : table.Proper) {more : Nat}
    (h : s.operator? table c (u ++ r) = some more) (hu : more = u.length) :
    table.after? (c :: (u ++ r)) = some r ∧
      (Text.isAsciiLetter c && s.namesAttribute) = false := by
  unfold operator? at h
  split at h
  · cases h
  · rename_i rest hafter
    split at h
    · cases h
    · rename_i haccess
      obtain ⟨op, hop, hop'⟩ := List.exists_of_findSome?_eq_some hafter
      obtain ⟨v, hne, hv⟩ := (htable op hop).after?_suffix hop'
      have hlength : (c :: (u ++ r)).length = v.length + rest.length := by
        rw [hv, List.length_append]
      have hpos := List.length_pos_iff.2 hne
      simp only [Option.some.injEq, List.length_append, List.length_cons] at h hlength
      have hrest : rest = r := by
        have hsuffix : (c :: u) ++ r = v ++ rest := hv
        exact (List.append_inj' hsuffix (by omega)).2.symm
      rw [hrest] at hafter
      exact ⟨hafter, by simpa using haccess⟩

theorem operator?_transfer (htable : table.Proper) (ht : Transfer table s.namesAttribute (c :: u) r r')
    (h : s.operator? table c (u ++ r) = some u.length) :
    s.operator? table c (u ++ r') = some u.length := by
  obtain ⟨hafter, haccess⟩ := operator?_eq_some htable h rfl
  have hafter' : table.after? (c :: (u ++ r')) = some r' :=
    OperatorTable.after?_congr (ht.others haccess) ht.operator hafter
  simp [operator?, hafter', haccess]

theorem operator?_none_transfer (ht : Transfer table s.namesAttribute (c :: u) r r')
    (h : s.operator? table c (u ++ r) = none) : s.operator? table c (u ++ r') = none := by
  unfold operator? at h ⊢
  cases haccess : Text.isAsciiLetter c && s.namesAttribute with
  | true => split <;> rfl
  | false =>
    have hnone : table.after? (c :: (u ++ r)) = none := by
      split at h
      · assumption
      · simp [haccess] at h
    have hnone' : table.after? (c :: (u ++ r')) = none := by
      rw [OperatorTable.after?_eq_none_iff] at hnone ⊢
      exact fun op hop => ht.others haccess op hop (hnone op hop)
    rw [hnone']

theorem layoutAt_transfer (hc : Text.isLayout c = true) (hhead : r.head? = r'.head?)
    (h : (Lexeme.layoutAt c (u ++ r)).2 = u.length) :
    Lexeme.layoutAt c (u ++ r') = Lexeme.layoutAt c (u ++ r) := by
  have hnext : (u ++ r).head? = (u ++ r').head? := by
    cases u with
    | nil => exact hhead
    | cons d u => rfl
  simp only [Text.isLayout, Bool.or_eq_true, beq_iff_eq] at hc
  rcases hc with ((rfl | rfl) | rfl) | rfl
  · have hrun : Lexeme.runLength (· == ' ') (u ++ r) = u.length := h
    change (Lexeme.LayoutClass.spaces, _) = (Lexeme.LayoutClass.spaces, _)
    rw [hrun, Lexeme.runLength_eq_of_head hhead hrun]
  · have hrun : Lexeme.runLength (· == '\t') (u ++ r) = u.length := h
    change (Lexeme.LayoutClass.tabs, _) = (Lexeme.LayoutClass.tabs, _)
    rw [hrun, Lexeme.runLength_eq_of_head hhead hrun]
  · change (Lexeme.LayoutClass.lineBreak, if (u ++ r').head? == some '\n' then 1 else 0) = _
    rw [← hnext]
    rfl
  · rfl

theorem Reading.transfer (htable : table.Proper) (ht : Transfer table s.namesAttribute (c :: u) r r')
    (h : Reading s table frame outer c (u ++ r) lexed) (hu : lexed.more = u.length) :
    Reading s table frame outer c (u ++ r') lexed := by
  cases h with
  | layout hc =>
    have hhead : r.head? = r'.head? := ht.layout (by simpa using hc)
    rw [← layoutAt_transfer hc hhead hu]
    exact .layout hc
  | spread hc h =>
    have hdots : c :: u = "...".toList :=
      List.append_inj_left (Text.after?_eq_some_iff.1 h) (congrArg (· + 1) hu.symm)
    have h' : Text.after? "...".toList (c :: (u ++ r')) = some r' := by
      rw [← List.cons_append, hdots, Text.after?_append]
    exact .spread hc h'
  | arrow hc hspread h =>
    have harrow : c :: u = "=>".toList :=
      List.append_inj_left (Text.after?_eq_some_iff.1 h) (congrArg (· + 1) hu.symm)
    have h' : Text.after? "=>".toList (c :: (u ++ r')) = some r' := by
      rw [← List.cons_append, harrow, Text.after?_append]
    exact .arrow hc (ht.spread hspread) h'
  | operator hplain h =>
    simp only at hu
    subst hu
    exact .operator (hplain.transfer ht) (operator?_transfer htable ht h)
  | name hplain hop h =>
    rw [nameLexed_more] at hu
    have hcontinues : Lexeme.continuesName c = true := by simp [Lexeme.continuesName, h]
    have hu' : Lexeme.runLength Lexeme.continuesName (u ++ r') = u.length := by
      have hrun := ht.name (by simp [Lexeme.runLength_cons, hcontinues, hu])
      simpa [Lexeme.runLength_cons, hcontinues] using hrun
    have hsame : nameLexed frame outer c (u ++ r) = nameLexed frame outer c (u ++ r') := by
      unfold nameLexed
      simp only [hu, hu', List.take_left]
    rw [hsame]
    exact .name (hplain.transfer ht) (operator?_none_transfer ht hop) h
  | number hplain hop hname h =>
    have hpos : 0 < Lexeme.numberLength (c :: (u ++ r)) := by
      simp only [Lexeme.numberLength, Lexeme.digitsLength, Lexeme.runLength_cons, h, if_true,
        Nat.add_one_ne_zero, if_false]
      omega
    have hlength : Lexeme.numberLength (c :: u ++ r) = (c :: u).length := by
      simp only [List.cons_append, List.length_cons] at hu ⊢
      omega
    have hsame : Lexeme.numberLength (c :: (u ++ r)) = Lexeme.numberLength (c :: (u ++ r')) :=
      hlength.trans (ht.number hlength).symm
    rw [hsame]
    exact .number (hplain.transfer ht) (operator?_none_transfer ht hop) hname h
  | punctuation hplain hop hname hdigit h =>
    exact .punctuation (hplain.transfer ht) (operator?_none_transfer ht hop) hname hdigit h
  | string hplain hop hc h =>
    simp only at hu
    subst hu
    have hlength := (Lexeme.singleQuotedLength?_take r' h).2
    rw [List.take_left] at hlength
    exact .string (hplain.transfer ht) (operator?_none_transfer ht hop) hc hlength
  | quote hplain hop hc =>
    exact .quote (hplain.transfer ht) (operator?_none_transfer ht hop) hc

/-! ### Steps -/

theorem Reading.more_le (h : Reading s table frame outer c t lexed) : lexed.more ≤ t.length := by
  cases h with
  | layout _ => exact Lexeme.layoutAt_le c t
  | spread _ h | arrow _ _ h =>
    have hlength := congrArg List.length (Text.after?_eq_some_iff.1 h)
    simp at hlength
    simp only
    omega
  | operator _ h =>
    unfold operator? at h
    split at h
    · cases h
    · split at h
      · cases h
      · cases h
        exact Nat.sub_le _ _
  | name _ _ _ =>
    rw [nameLexed_more]
    exact Lexeme.runLength_le _ _
  | number _ _ _ _ =>
    have := Lexeme.numberLength_le (c :: t)
    simp only [List.length_cons] at this ⊢
    omega
  | punctuation _ _ _ _ h =>
    rw [(punctuation?_ok h).2]
    exact Nat.zero_le _
  | string _ _ _ h => exact (Lexeme.singleQuotedLength?_take [] h).1
  | quote _ _ _ => exact Nat.zero_le _

theorem Inside.more_le (h : Inside s table frame outer c t lexed) : lexed.more ≤ t.length := by
  cases h with
  | endQuote _ _ => exact Nat.zero_le _
  | interpolate _ _ ht =>
    cases t with
    | nil => cases ht
    | cons d t => simp
  | literal _ _ _ =>
    have := Lexeme.literalLength_le (c :: t)
    simp only [List.length_cons] at this ⊢
    omega
  | close hend =>
    obtain ⟨-, v, -, -, rfl, hv⟩ := Frame.endAt?_eq_some_iff.1 hend
    have := hv.length_le
    simp only [List.length_cons] at this ⊢
    omega
  | read _ _ h => exact h.more_le

/-- Inside of a construct, a lexeme that cannot tell two rests apart is read in front of both. -/
theorem Inside.transfer (htable : table.Proper)
    (hread : frame ≠ .quote → Transfer table s.namesAttribute (c :: u) r r')
    (hstop : frame.endAt? (c :: (u ++ r)) = none → frame.endAt? (c :: (u ++ r')) = none)
    (hquote : frame = .quote → lexed.kind = .string →
      Lexeme.EndsLiteral r ∧ Lexeme.EndsLiteral r')
    (h : Inside s table frame outer c (u ++ r) lexed) (hu : lexed.more = u.length) :
    Inside s table frame outer c (u ++ r') lexed := by
  cases h with
  | endQuote hframe hc => exact .endQuote hframe hc
  | interpolate hframe hc ht =>
    obtain ⟨d, rfl⟩ := List.length_eq_one_iff.1 hu.symm
    exact .interpolate hframe hc ht
  | literal hframe hc ht =>
    obtain ⟨hr, hr'⟩ := hquote hframe rfl
    have hpos := Lexeme.literalLength_pos hc ht
    have hlength : Lexeme.literalLength ((c :: u) ++ r) = (c :: u).length := by
      simp only [List.cons_append, List.length_cons] at hu ⊢
      omega
    have hsame : Lexeme.literalLength (c :: (u ++ r)) = Lexeme.literalLength (c :: (u ++ r')) :=
      hlength.trans (Lexeme.literalLength_append hr hr' hlength).symm
    rw [hsame]
    refine .literal hframe hc ?_
    rintro ⟨rfl, hbrace⟩
    cases u with
    | nil => rcases hr' with hr' | hr' <;> cases r' <;> simp_all
    | cons d u => exact ht ⟨rfl, hbrace⟩
  | close hend =>
    simp only at hu
    have hend' : frame.endAt? ((c :: u) ++ r) = some _ := hend
    exact .close (Frame.endAt?_transfer hend' (by simp only [List.length_cons]; omega))
  | read hframe hend h =>
    exact .read hframe (hstop hend) (h.transfer htable (hread hframe) hu)

end Lexer

end TwigStyle
