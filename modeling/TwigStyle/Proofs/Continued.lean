import TwigStyle.Proofs.Delimiters

/-!
# What follows a closed construct

A lexeme may look at the text behind it, but not past a closing brace: no operator, number, name or
layout holds one.  A text with a brace in it is therefore read the same whatever is appended to it,
and one that ends with a closed construct is read to its end as if nothing followed
(`run_append_right`).

Only the end of a variable needs more than the brace: a trim marker and one brace at the end of a
text would be completed by another brace.  `Shut` asks for two characters, which every end of a
construct has.
-/

namespace TwigStyle

/-! ### Texts with a closing brace -/

section Braces

variable {t u w : List Char}

theorem Text.after?_append_right (hw : '\x7d' ∉ w) (ht : '\x7d' ∈ t) :
    after? w (t ++ u) = (after? w t).map (· ++ u) := by
  induction w generalizing t with
  | nil => simp [after?]
  | cons c w ih =>
    cases t with
    | nil => cases ht
    | cons d t =>
      simp only [List.cons_append, after?]
      split
      · rename_i hcd
        have hne : '\x7d' ≠ d := by
          rw [← hcd]
          exact fun h => hw (h ▸ List.mem_cons_self)
        exact ih (fun h => hw (List.mem_cons_of_mem c h)) (List.mem_of_ne_of_mem hne ht)
      · rfl

theorem brace_mem_after? (hw : '\x7d' ∉ w) (ht : '\x7d' ∈ t) {r : List Char}
    (h : Text.after? w t = some r) : '\x7d' ∈ r := by
  rw [Text.after?_eq_some_iff.1 h] at ht
  exact (List.mem_append.1 ht).resolve_left hw

theorem dropWhile_append_right {p : Char → Bool} (hp : p '\x7d' = false) (ht : '\x7d' ∈ t) :
    (t ++ u).dropWhile p = t.dropWhile p ++ u ∧ '\x7d' ∈ t.dropWhile p := by
  induction t with
  | nil => cases ht
  | cons c t ih =>
    cases hc : p c with
    | false => simpa [hc] using ht
    | true =>
      have hne : '\x7d' ≠ c := by
        rintro rfl
        rw [hp] at hc
        cases hc
      simpa [hc] using ih (List.mem_of_ne_of_mem hne ht)

namespace Lexeme

theorem runLength_append_right {p : Char → Bool} (hp : p '\x7d' = false) (ht : '\x7d' ∈ t) :
    runLength p (t ++ u) = runLength p t ∧ '\x7d' ∈ t.drop (runLength p t) := by
  induction t with
  | nil => cases ht
  | cons c t ih =>
    rw [List.cons_append, runLength_cons, runLength_cons]
    cases hc : p c with
    | false => exact ⟨rfl, ht⟩
    | true =>
      have hne : '\x7d' ≠ c := by
        rintro rfl
        rw [hp] at hc
        cases hc
      simpa using ih (List.mem_of_ne_of_mem hne ht)

theorem digitsLength_append_right (ht : '\x7d' ∈ t) :
    digitsLength (t ++ u) = digitsLength t ∧ '\x7d' ∈ t.drop (digitsLength t) :=
  runLength_append_right rfl ht

theorem fractionLength_append_right (ht : '\x7d' ∈ t) :
    fractionLength (t ++ u) = fractionLength t ∧ '\x7d' ∈ t.drop (fractionLength t) := by
  cases t with
  | nil => cases ht
  | cons c t =>
    by_cases hc : c = '.'
    · subst hc
      have ht' : '\x7d' ∈ t := List.mem_of_ne_of_mem (by decide) ht
      obtain ⟨hlength, hmem⟩ := digitsLength_append_right (u := u) ht'
      simp only [List.cons_append, fractionLength, hlength, true_and]
      split
      · exact ht
      · rw [Nat.add_comm, List.drop_succ_cons]
        exact hmem
    · have hzero : ∀ t, fractionLength (c :: t) = 0 := by
        intro t
        unfold fractionLength
        split
        · rename_i h
          exact absurd (List.cons.inj h).1 hc
        · rfl
      rw [List.cons_append, hzero, hzero]
      exact ⟨rfl, ht⟩

theorem exponentLength_append_right (ht : '\x7d' ∈ t) :
    exponentLength (t ++ u) = exponentLength t := by
  rcases t with _ | ⟨e, _ | ⟨s, t⟩⟩
  · cases ht
  · obtain rfl := List.mem_singleton.1 ht
    cases u <;> simp [exponentLength]
  · by_cases hs : e = '\x7d' ∨ s = '\x7d'
    · -- A brace is neither the letter nor the sign of an exponent.
      have hzero : ∀ t, exponentLength (e :: s :: t) = 0 := by
        rcases hs with rfl | rfl <;> simp [exponentLength]
      rw [List.cons_append, List.cons_append, hzero, hzero]
    · have ht' : '\x7d' ∈ t := by
        simp only [List.mem_cons] at ht
        rcases ht with h | h | h
        · exact absurd (.inl h.symm) hs
        · exact absurd (.inr h.symm) hs
        · exact h
      simp only [List.cons_append, exponentLength, (digitsLength_append_right ht').1]

theorem numberLength_append_right (ht : '\x7d' ∈ t) : numberLength (t ++ u) = numberLength t := by
  obtain ⟨hwhole, hmem⟩ := digitsLength_append_right (u := u) ht
  obtain ⟨hfraction, hmem'⟩ := fractionLength_append_right (u := u) hmem
  have hle : digitsLength t ≤ t.length := runLength_le Char.isDigit t
  have hle' := fractionLength_le (t.drop (digitsLength t))
  rw [List.length_drop] at hle'
  rw [List.drop_drop] at hmem'
  simp only [numberLength, hwhole]
  split
  · rfl
  · rw [List.drop_append_of_le_length hle, hfraction, List.drop_append_of_le_length (by omega),
      exponentLength_append_right hmem']

end Lexeme

/-! ### Operators -/

namespace Operator

variable {ws : List (List Char)}

theorem afterWords?_append_right (hws : ∀ w ∈ ws, '\x7d' ∉ w) (ht : '\x7d' ∈ t) :
    afterWords? ws (t ++ u) = (afterWords? ws t).map (· ++ u) ∧
      ∀ r, afterWords? ws t = some r → '\x7d' ∈ r := by
  induction ws generalizing t with
  | nil =>
    refine ⟨rfl, fun r hr => ?_⟩
    cases hr
    exact ht
  | cons w ws ih =>
    have hw : '\x7d' ∉ w := hws w List.mem_cons_self
    have hrest : ∀ w ∈ ws, '\x7d' ∉ w := fun x hx => hws x (List.mem_cons_of_mem w hx)
    cases ws with
    | nil => exact ⟨Text.after?_append_right hw ht, fun r hr => brace_mem_after? hw ht hr⟩
    | cons w' ws =>
      simp only [afterWords?, Text.after?_append_right hw ht]
      cases hafter : Text.after? w t with
      | none =>
        refine ⟨rfl, fun r hr => ?_⟩
        cases hr
      | some r =>
        have hr := brace_mem_after? hw ht hafter
        cases r with
        | nil => cases hr
        | cons c r =>
          simp only [Option.map_some, List.cons_append]
          split
          · rename_i hblank
            have hne : '\x7d' ≠ c := by
              rintro rfl
              cases hblank
            obtain ⟨hdrop, hmem⟩ := dropWhile_append_right (u := u) (p := Text.isBlank) rfl
              (List.mem_of_ne_of_mem hne hr)
            rw [hdrop]
            exact ih hrest hmem
          · refine ⟨rfl, fun r' hr' => ?_⟩
            cases hr'

theorem after?_append_right {op : Operator} (hop : ∀ w ∈ op.words, '\x7d' ∉ w)
    (ht : '\x7d' ∈ t) : op.after? (t ++ u) = (op.after? t).map (· ++ u) := by
  obtain ⟨happend, hmem⟩ := afterWords?_append_right (u := u) hop ht
  unfold after?
  rw [happend]
  cases hwords : afterWords? op.words t with
  | none => rfl
  | some r =>
    have hboundary : atBoundary (r ++ u) = atBoundary r := by
      cases r with
      | nil => cases hmem [] hwords
      | cons c r => rfl
    simp only [Option.map_some, hboundary]
    split <;> rfl

end Operator

theorem brace_notMem_default :
    ∀ op ∈ OperatorTable.default.operators, ∀ w ∈ op.words, '\x7d' ∉ w := by
  have hall : OperatorTable.default.operators.all (fun op =>
      op.words.all fun w => !w.contains '\x7d') = true := by decide +kernel
  intro op hop w hw
  have h := List.all_eq_true.1 (List.all_eq_true.1 hall op hop) w hw
  simpa using h

/-! ### Delimiters -/

namespace Delimiter

variable {body rest stop : List Char}

theorem trimMarker_append_right (ht : t ≠ []) :
    trimMarker (t ++ u) = ((trimMarker t).1, (trimMarker t).2 ++ u) := by
  cases t with
  | nil => exact absurd rfl ht
  | cons c t =>
    simp only [List.cons_append, trimMarker]
    split <;> rfl

theorem brace_mem_trimMarker (ht : '\x7d' ∈ t) : '\x7d' ∈ (trimMarker t).2 := by
  cases t with
  | nil => cases ht
  | cons c t =>
    simp only [trimMarker]
    split
    · rename_i hm
      refine List.mem_of_ne_of_mem ?_ ht
      rintro rfl
      cases hm
    · exact ht

theorem at?_append_right (ht : '\x7d' ∈ t) :
    at? (t ++ u) = (at? t).map fun (k, value, rest) => (k, value, rest ++ u) := by
  rcases t with _ | ⟨a, _ | ⟨c, t⟩⟩
  · cases ht
  · obtain rfl := List.mem_singleton.1 ht
    cases u <;> rfl
  · by_cases ha : a = '\x7b'
    · subst ha
      simp only [List.cons_append, at?]
      cases hc : construct? c with
      | none => rfl
      | some k =>
        have hne : t ≠ [] := by
          rintro rfl
          simp only [List.mem_cons, List.not_mem_nil, or_false] at ht
          rcases ht with ht | rfl
          · cases ht
          · cases hc
        simp [trimMarker_append_right hne]
    · have hnone : ∀ t, at? (a :: c :: t) = none := by
        intro t
        unfold at?
        split
        · rename_i h
          exact absurd (List.cons.inj h).1 ha
        · rfl
      rw [List.cons_append, List.cons_append, hnone, hnone]
      rfl

theorem afterBlockEnd?_append_right (ht : '\x7d' ∈ t) :
    (afterBlockEnd? (t ++ u)).isSome = (afterBlockEnd? t).isSome := by
  have hne : t ≠ [] := List.ne_nil_of_mem ht
  have hmem := brace_mem_trimMarker ht
  unfold afterBlockEnd?
  rw [trimMarker_append_right hne]
  generalize (trimMarker t).2 = r at hmem
  rcases r with _ | ⟨a, _ | ⟨b, r⟩⟩
  · cases hmem
  · obtain rfl := List.mem_singleton.1 hmem
    rfl
  · simp only [List.cons_append, Text.after?]
    split
    · split <;> rfl
    · rfl

theorem endsVerbatim_append_right (ht : '\x7d' ∈ t) : endsVerbatim (t ++ u) = endsVerbatim t := by
  have hopen : '\x7d' ∉ ['\x7b', '%'] := by decide
  unfold endsVerbatim
  rw [Text.after?_append_right hopen ht]
  cases hafter : Text.after? ['\x7b', '%'] t with
  | none => rfl
  | some r =>
    have hr := brace_mem_after? hopen ht hafter
    obtain ⟨hdrop, hmem⟩ := dropWhile_append_right (u := u) (p := Text.isBlank) rfl
      (brace_mem_trimMarker hr)
    simp only [Option.map_some, trimMarker_append_right (List.ne_nil_of_mem hr), hdrop]
    generalize (trimMarker r).2.dropWhile Text.isBlank = v at hmem
    rw [Text.after?_append_right (by decide) hmem, Text.after?_append_right (by decide) hmem,
      ← Option.map_or]
    cases hname : (Text.after? "endverbatim".toList v).or (Text.after? "endraw".toList v) with
    | none => rfl
    | some q =>
      have hq : '\x7d' ∈ q := by
        rcases Option.or_eq_some_iff.1 hname with hname | ⟨-, hname⟩
        · exact brace_mem_after? (by decide) hmem hname
        · exact brace_mem_after? (by decide) hmem hname
      obtain ⟨hdrop', hmem'⟩ := dropWhile_append_right (u := u) (p := Text.isBlank) rfl hq
      simp only [Option.map_some, hdrop']
      exact afterBlockEnd?_append_right hmem'

theorem find_append_right {verbatim : Bool} {skip : Nat} {before value : List Char}
    {k : Construct} (h : find verbatim skip t = (before, some (k, value, rest)))
    (hrest : '\x7d' ∈ rest) :
    find verbatim skip (t ++ u) = (before, some (k, value, rest ++ u)) := by
  induction t generalizing skip before with
  | nil => cases skip <;> cases h
  | cons c t ih =>
    have hmem : '\x7d' ∈ c :: t := by
      rw [← (find_append h).1]
      simp [hrest]
    have key : ∀ {n : Nat}, (c :: (find verbatim n t).1, (find verbatim n t).2) =
        (before, some (k, value, rest)) →
        (c :: (find verbatim n (t ++ u)).1, (find verbatim n (t ++ u)).2) =
          (before, some (k, value, rest ++ u)) := by
      intro n hn
      obtain ⟨rfl, hfound⟩ := Prod.mk.inj hn
      rw [ih (Prod.ext rfl hfound)]
    cases skip with
    | succ skip => exact key h
    | zero =>
      rw [find] at h
      rw [List.cons_append, find, ← List.cons_append, at?_append_right hmem,
        endsVerbatim_append_right hmem]
      cases hat : at? (c :: t) with
      | none =>
        rw [hat] at h
        exact key h
      | some found =>
        rw [hat] at h
        simp only [Option.map_some] at h ⊢
        split at h
        · rename_i hskip
          rw [if_pos hskip]
          exact key h
        · rename_i hskip
          cases h
          rw [if_neg hskip]

theorem commentEndAt?_none_append {c : Char} (h : commentEndAt? (c :: t) = none)
    (ht : 2 ≤ t.length) : commentEndAt? (c :: t ++ u) = none := by
  cases hend : commentEndAt? (c :: t ++ u) with
  | none => rfl
  | some e =>
    obtain ⟨htext, hvalue⟩ := commentEndAt?_eq_some_iff.1 hend
    have hlength : e.1.length ≤ (c :: t).length := by
      rcases hvalue with hvalue | ⟨m, -, hvalue⟩ <;> rw [hvalue] <;> simp <;> omega
    obtain ⟨r, hr⟩ : e.1 <+: c :: t :=
      List.prefix_of_prefix_length_le ⟨e.2, htext.symm⟩ (List.prefix_append _ u) hlength
    rw [commentEndAt?_eq_some_iff.2 ⟨hr.symm, hvalue⟩] at h
    cases h

theorem commentBody?_length (h : commentBody? t = some (body, stop, rest)) : 2 ≤ t.length := by
  have htext := (commentBody?_append h).1
  obtain ⟨-, hstop⟩ := commentEndAt?_eq_some_iff.1 (commentBody?_found h)
  have hlength : 2 ≤ stop.length := by
    rcases hstop with hstop | ⟨m, -, hstop⟩ <;> rw [hstop] <;> simp
  rw [← htext, List.length_append, List.length_append]
  omega

theorem commentBody?_append_right (h : commentBody? t = some (body, stop, rest)) :
    commentBody? (t ++ u) = some (body, stop, rest ++ u) := by
  induction t generalizing body with
  | nil => cases h
  | cons c t ih =>
    rw [commentBody?] at h
    cases hend : commentEndAt? (c :: t) with
    | some e =>
      obtain ⟨value, after⟩ := e
      rw [hend] at h
      cases h
      obtain ⟨htext, hvalue⟩ := commentEndAt?_eq_some_iff.1 hend
      have hend' : commentEndAt? (c :: t ++ u) = some (stop, rest ++ u) :=
        commentEndAt?_eq_some_iff.2 ⟨by rw [htext, List.append_assoc], hvalue⟩
      rw [List.cons_append] at hend' ⊢
      rw [commentBody?, hend']
    | none =>
      rw [hend] at h
      cases hbody : commentBody? t with
      | none =>
        rw [hbody] at h
        cases h
      | some found =>
        rw [hbody] at h
        cases h
        have hend' : commentEndAt? (c :: t ++ u) = none :=
          commentEndAt?_none_append hend (commentBody?_length hbody)
        rw [List.cons_append] at hend' ⊢
        rw [commentBody?, hend', ih hbody]

end Delimiter

end Braces

/-! ### Lexemes in front of a closed construct -/

/-- A text with an end of a construct in it. -/
structure Shut (t : List Char) : Prop where
  brace : '\x7d' ∈ t
  length : 2 ≤ t.length

theorem Shut.spell {ls : List Lexeme} {l : Lexeme} (hmem : l ∈ ls) (h : Shut l.2) :
    Shut (spell ls) := by
  obtain ⟨as, bs, rfl⟩ := List.append_of_mem hmem
  refine ⟨by simp [h.brace], ?_⟩
  have := h.length
  simp only [spell_append, spell_cons, List.length_append]
  omega

/-- Does a kind end a construct of a template? -/
def TokenKind.closes : TokenKind → Bool
  | variableEnd | blockEnd | commentEnd => true
  | _ => false

theorem transfer_append_right {access : Bool} {v r u : List Char} (hr : '\x7d' ∈ r) :
    Transfer OperatorTable.default access v r (r ++ u) := by
  have hmem : '\x7d' ∈ v ++ r := List.mem_append_right v hr
  have hhead : r.head? = (r ++ u).head? := by
    cases r with
    | nil => cases hr
    | cons c r => rfl
  have hop : ∀ op ∈ OperatorTable.default.operators,
      op.after? (v ++ (r ++ u)) = (op.after? (v ++ r)).map (· ++ u) := by
    intro op hop
    rw [← List.append_assoc]
    exact Operator.after?_append_right (brace_notMem_default op hop) hmem
  refine ⟨?_, ?_, ?_, ?_, ?_, ?_, fun _ => hhead⟩
  · intro h
    rw [← List.append_assoc, Text.after?_append_right (by decide) hmem, h]
    rfl
  · intro h
    rw [← List.append_assoc, Text.after?_append_right (by decide) hmem, h]
    rfl
  · intro _ op hmem' h
    rw [hop op hmem', h]
    rfl
  · intro op hmem' h
    rw [hop op hmem', h]
    rfl
  · exact Lexeme.runLength_eq_of_head hhead
  · intro h
    rw [← List.append_assoc, Lexeme.numberLength_append_right hmem, h]

namespace Lexer

variable {s s' : Lexer} {frame : Frame} {outer frames : List Frame} {c : Char}
  {t r u rest v : List Char} {lexed : Lexed} {new : List Lexeme} {table : OperatorTable}
  {verbatim verbatim' : Bool}

theorem Inside.close_of_mem (h : Inside s table frame outer c t lexed)
    (hkind : lexed.kind.closes = true) :
    ∃ kind n, frame.endAt? (c :: t) = some (kind, n) ∧ lexed = ⟨kind, n - 1, outer, none⟩ := by
  cases h with
  | endQuote | interpolate | literal => cases hkind
  | close hend => exact ⟨_, _, hend, rfl⟩
  | read _ _ h =>
    have hopen : ∀ k ∈ expressionKinds, k.closes = false := by decide
    rw [hopen _ h.kind_mem] at hkind
    cases hkind

theorem Inside.endsLiteral (h : Inside s table .quote outer c (v ++ r) lexed)
    (hkind : lexed.kind = .string) (hv : lexed.more = v.length) (hr : r ≠ []) :
    Lexeme.EndsLiteral r := by
  cases h with
  | endQuote | interpolate => cases hkind
  | close hend => cases hend
  | read hframe _ _ => exact absurd rfl hframe
  | literal _ hc ht =>
    have hpos := Lexeme.literalLength_pos hc ht
    have hlength : Lexeme.literalLength (c :: (v ++ r)) = v.length + 1 := by
      simp only at hv
      omega
    have hdrop := Lexeme.drop_literalLength (c :: (v ++ r))
    rw [hlength, List.drop_succ_cons, List.drop_left] at hdrop
    exact hdrop.resolve_left hr

theorem Inside.append_right (h : Inside s OperatorTable.default frame outer c (v ++ r) lexed)
    (hv : lexed.more = v.length) (hr : Shut r ∨ r = [] ∧ lexed.kind.closes = true) :
    Inside s OperatorTable.default frame outer c (v ++ (r ++ u)) lexed := by
  rcases hr with hshut | ⟨rfl, hkind⟩
  · refine h.transfer default_proper (fun _ => transfer_append_right hshut.brace) ?_ ?_ hv
    · intro hend
      rw [Frame.endAt?_eq_none_iff] at hend ⊢
      intro hopen w hw hpre
      rw [← List.append_assoc, ← List.cons_append] at hpre
      refine hend hopen w hw
        (List.prefix_of_prefix_length_le hpre (List.prefix_append _ u) ?_)
      have hlength : w.length ≤ 3 := by
        cases frame <;> simp only [Frame.ends, List.mem_cons, List.not_mem_nil, or_false] at hw
        · rcases hw with rfl | rfl | rfl <;> decide
        · rcases hw with rfl | rfl | rfl <;> decide
        · rw [hw]
          decide
      have := hshut.length
      simp only [List.length_cons, List.length_append]
      omega
    · rintro rfl hkind
      have hr : r ≠ [] := List.ne_nil_of_mem hshut.brace
      have hends := h.endsLiteral hkind hv hr
      refine ⟨hends, ?_⟩
      rcases hends with hhead | htake
      · exact .inl (by rw [List.head?_append, hhead, Option.some_or])
      · refine .inr ?_
        rw [List.take_append_of_le_length hshut.length, htake]
  · obtain ⟨kind, n, hend, rfl⟩ := h.close_of_mem hkind
    simp only at hv
    have hend' : frame.endAt? ((c :: v) ++ []) = some (kind, n) := hend
    exact .close (Frame.endAt?_transfer hend' (by simp only [List.length_cons]; omega))

/-! ### Steps and runs -/

/-- What is left of a text after a step, if a closed construct ends it. -/
def LeavesShut (new : List Lexeme) (rest : List Char) : Prop :=
  Shut rest ∨ rest = [] ∧ ∃ l, new.getLast? = some l ∧ l.1.closes = true

theorem take_append_right (hle : lexed.more ≤ t.length) :
    s.take frame lexed c (t ++ u) = s.take frame lexed c t := by
  unfold take
  rw [List.take_append_of_le_length hle]

theorem closes_of_mem_textLexemes {before : List Char} :
    ∀ l ∈ textLexemes before, l.1.closes = false := by
  intro l hl
  obtain ⟨⟨cls, v⟩, -, rfl⟩ := List.mem_map.1 hl
  cases cls <;> rfl

theorem comment_append_right {start : List Char} (h : s.comment start t = .ok (s', rest)) :
    s.comment start (t ++ u) = .ok (s', rest ++ u) := by
  unfold comment at h ⊢
  simp only at h ⊢
  split at h
  · cases h
  · rename_i hbody
    cases h
    rw [Delimiter.commentBody?_append_right hbody]

theorem Data.found_of_leavesShut (h : Data verbatim t new frames verbatim' rest)
    (hrest : LeavesShut new rest) :
    ∃ before k value after, Delimiter.find verbatim 0 t = (before, some (k, value, after)) ∧
      '\x7d' ∈ after := by
  have hstart : ∀ {ls : List Lexeme} {kind : TokenKind} {value rest : List Char},
      LeavesShut (ls ++ [(kind, value)]) rest → kind.closes = false → '\x7d' ∈ rest := by
    rintro ls kind value rest (hshut | ⟨-, l, hl, hcloses⟩) hkind
    · exact hshut.brace
    · rw [List.getLast?_concat] at hl
      cases hl
      rw [hkind] at hcloses
      cases hcloses
  cases h with
  | text hfind =>
    rw [Delimiter.find_none hfind] at hrest
    rcases hrest with hshut | ⟨-, l, hl, hcloses⟩
    · cases hshut.brace
    · rw [closes_of_mem_textLexemes l (List.mem_of_getLast? hl)] at hcloses
      cases hcloses
  | «variable» hfind | block hfind => exact ⟨_, _, _, _, hfind, hstart hrest rfl⟩
  | comment hfind hbody =>
    refine ⟨_, _, _, _, hfind, ?_⟩
    rw [← (Delimiter.commentBody?_append hbody).1]
    obtain ⟨-, hstop⟩ := Delimiter.commentEndAt?_eq_some_iff.1 (Delimiter.commentBody?_found hbody)
    rcases hstop with hstop | ⟨m, -, hstop⟩ <;> rw [hstop] <;> simp

theorem data_append_right (hframes : s.frames = []) (h : s.data t = .ok (s', rest))
    (hnew : s'.emitted = s.emitted ++ new) (hrest : LeavesShut new rest) :
    s.data (t ++ u) = .ok (s', rest ++ u) := by
  obtain ⟨new', hdata, hnew'⟩ := data_of_ok hframes h
  obtain rfl : new = new' := List.append_cancel_left (hnew.symm.trans hnew')
  obtain ⟨before, k, value, after, hfind, hmem⟩ := hdata.found_of_leavesShut hrest
  unfold data at h ⊢
  rw [hfind] at h
  rw [Delimiter.find_append_right hfind hmem]
  cases k with
  | «variable» | block =>
    cases h
    rfl
  | comment => exact comment_append_right h

theorem step_append_right (h : s.step OperatorTable.default c t = .ok (s', rest))
    (hnew : s'.emitted = s.emitted ++ new) (hrest : LeavesShut new rest) :
    s.step OperatorTable.default c (t ++ u) = .ok (s', rest ++ u) := by
  rcases step_cases h with ⟨hframes, hdata⟩ | ⟨frame, outer, lexed, hframes, hinside, rfl, rfl⟩
  · rw [step_of_data hframes, ← List.cons_append]
    exact data_append_right hframes hdata hnew hrest
  · rw [emitted_take] at hnew
    obtain rfl := List.append_cancel_left hnew
    have hle := hinside.more_le
    rw [← List.take_append_drop lexed.more t] at hinside
    have hinside' := hinside.append_right (u := u) (List.length_take_of_le hle).symm (by
      rcases hrest with hshut | ⟨hnil, l, hl, hcloses⟩
      · exact .inl hshut
      · cases hl
        exact .inr ⟨hnil, hcloses⟩)
    rw [← List.append_assoc, List.take_append_drop] at hinside'
    rw [step_of_inside hframes hinside', take_append_right hle, List.drop_append_of_le_length hle]

theorem Inside.shut (h : Inside s table frame outer c t lexed) (hkind : lexed.kind.closes = true) :
    Shut (c :: t.take lexed.more) := by
  obtain ⟨kind, n, hend, rfl⟩ := h.close_of_mem hkind
  have hv := Frame.mem_ends hend
  obtain ⟨-, -, -, rfl, -, -⟩ := Frame.endAt?_eq_some_iff.1 hend
  simp only
  cases frame with
  | quote | interpolation => cases hkind
  | «variable» | block =>
    simp only [Frame.ends, List.mem_cons, List.not_mem_nil, or_false] at hv
    rcases hv with hv | hv | hv <;> rw [hv] <;> exact ⟨by decide, by decide⟩

theorem Data.shut (h : Data verbatim t new frames verbatim' rest) :
    ∀ l ∈ new, l.1.closes = true → Shut l.2 := by
  refine h.forall ?_ ?_ ?_
  · rintro u ⟨cls, v⟩ -
    cases cls <;> exact ⟨nofun, nofun⟩
  · intro before value after k _ kind hkind hcloses
    have hopen : ∀ k ∈ [TokenKind.variableStart, .blockStart, .commentStart], k.closes = false := by
      decide
    rw [hopen kind hkind] at hcloses
    cases hcloses
  · intro after body stop rest hbody _
    obtain ⟨-, hstop⟩ := Delimiter.commentEndAt?_eq_some_iff.1 (Delimiter.commentBody?_found hbody)
    rcases hstop with hstop | ⟨m, -, hstop⟩ <;> rw [hstop] <;> exact ⟨by simp, by simp⟩

theorem step_shut (h : s.step table c t = .ok (s', rest)) :
    ∃ new, s'.emitted = s.emitted ++ new ∧ ∀ l ∈ new, l.1.closes = true → Shut l.2 :=
  step_adds (P := fun _ new _ => ∀ l ∈ new, l.1.closes = true → Shut l.2) Data.shut
    (fun hlexed => List.forall_mem_singleton.2 hlexed.shut) h

/-- **A closed construct is read to its end whatever follows.** -/
theorem run_append_right (h : run OperatorTable.default s t = .ok s')
    (hnew : s'.emitted = s.emitted ++ new)
    (hlast : t ≠ [] → ∃ l, new.getLast? = some l ∧ l.1.closes = true) :
    run OperatorTable.default s (t ++ u) = run OperatorTable.default s' u := by
  fun_induction run OperatorTable.default s t generalizing new with
  | case1 s =>
    cases h
    rfl
  | case2 s c t e hstep => cases h
  | case3 s c t s₁ rest hstep ih =>
    obtain ⟨new₁, hnew₁, -, -⟩ := step_emits hstep
    obtain ⟨new₂, hnew₂, hspell, hsolid⟩ := run_emits h
    obtain rfl : new = new₁ ++ new₂ := by
      rw [hnew₁, List.append_assoc] at hnew₂
      exact List.append_cancel_left (hnew.symm.trans hnew₂)
    obtain ⟨l, hl, hcloses⟩ := hlast (List.cons_ne_nil c t)
    have hlast₂ : rest ≠ [] → ∃ l, new₂.getLast? = some l ∧ l.1.closes = true := by
      intro hne
      cases hlast₂ : new₂.getLast? with
      | none =>
        rw [List.getLast?_eq_none_iff.1 hlast₂] at hspell
        exact absurd hspell.symm hne
      | some l₂ =>
        rw [List.getLast?_append, hlast₂, Option.some_or] at hl
        cases hl
        exact ⟨l, rfl, hcloses⟩
    have hrest : LeavesShut new₁ rest := by
      by_cases hnil : rest = []
      · subst hnil
        obtain rfl : new₂ = [] := by
          cases new₂ with
          | nil => rfl
          | cons l₂ new₂ =>
            obtain ⟨hempty, -⟩ := List.append_eq_nil_iff.1 hspell
            exact absurd hempty (hsolid l₂ List.mem_cons_self).2
        rw [List.append_nil] at hl
        exact .inr ⟨rfl, l, hl, hcloses⟩
      · obtain ⟨l₂, hl₂, hcloses₂⟩ := hlast₂ hnil
        obtain ⟨new₂', hnew₂', hshut⟩ := run_forall step_shut h
        obtain rfl : new₂ = new₂' := List.append_cancel_left (hnew₂.symm.trans hnew₂')
        have hmem := List.mem_of_getLast? hl₂
        rw [← hspell]
        exact .inl (Shut.spell hmem (hshut l₂ hmem hcloses₂))
    rw [List.cons_append, run_cons (step_append_right hstep hnew₁ hrest)]
    exact ih h hnew₂ hlast₂

end Lexer

end TwigStyle
