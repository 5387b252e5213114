import TwigStyle.Proofs.Bookkeeping
import TwigStyle.Proofs.RowTexts

/-!
# One gap, checked and mended

What a spacing makes of the layout on one side of a token, whatever the spacing wants and wherever it
wants it.  The check counts kinds and widths, but it comes down to the text of the gap: there is a
finding exactly if the gap has a line break that is not accepted, or no line break and another text
than the wanted spaces (`Spacing.accepts_eq_false_iff`).

The repair goes through a change set, by replacing the values of the gap or, where it is empty, by
adding to the token.  In the first pass over a file no edit brings back an earlier value, so nothing
but an earlier edit can stand in its way (`InStep.fill`).
-/

namespace TwigStyle

/-! ### The gap as a row between two tokens -/

/-- The index of the token that bounds a gap on the far side. -/
def Spacing.Side.bound : Spacing.Side → (left right : Nat) → Nat
  | .before, left, _ => left
  | .after, _, right => right

/-- The text of a token with some more on a side of it. -/
def Spacing.Side.attach : Spacing.Side → (value more : List Char) → List Char
  | .before, value, more => more ++ value
  | .after, value, more => value ++ more

/-- Between two tokens stand spaces, tabs and line breaks only, and they are all of those on this
    side of the one token: the other one is none of them. -/
structure TokenStream.Spans (s : TokenStream) (side : Spacing.Side) (l r : Nat) : Prop where
  lt : l < r
  row : ∀ k, l < k → k < r → s.kindIn k Spacing.gapKinds = true
  bound : ∃ t, s.get? (side.bound l r) = some t ∧ t.kind ∉ Spacing.gapKinds

theorem Spacing.gap?_eq_some_iff {s : TokenStream} {side : Side} {i : Nat} {g : Gap}
    (hi : i < s.size) :
    gap? s i side = some g ↔ ∃ l r, s.Spans side l r ∧ side.token l r = i ∧ g = ⟨l + 1, r⟩ := by
  cases side with
  | before =>
    simp only [gap?, Option.map_eq_some_iff, TokenStream.previousOutside_eq_some_iff (Nat.le_of_lt hi)]
    constructor
    · rintro ⟨l, ⟨hlt, hbound, hrow⟩, rfl⟩
      exact ⟨l, i, ⟨hlt, hrow, hbound⟩, rfl, rfl⟩
    · rintro ⟨l, r, ⟨hlt, hrow, hbound⟩, rfl, rfl⟩
      exact ⟨l, ⟨hlt, hbound, hrow⟩, rfl⟩
  | after =>
    simp only [gap?, Option.map_eq_some_iff, TokenStream.nextOutside_eq_some_iff]
    constructor
    · rintro ⟨r, ⟨hlt, hbound, hrow⟩, rfl⟩
      exact ⟨i, r, ⟨hlt, hrow, hbound⟩, rfl, rfl⟩
    · rintro ⟨l, r, ⟨hlt, hrow, hbound⟩, rfl, rfl⟩
      exact ⟨r, ⟨hlt, hbound, hrow⟩, rfl⟩

/-! ### The first pass -/

namespace EditBuffer

variable {b : EditBuffer} {s : TokenStream} {values : Array (List Char)} {i l r : Nat}
  {text : List Char}

theorem recordAll_passes (b : EditBuffer) (edits : List (Nat × List Char)) :
    (b.recordAll edits).passes = b.passes ∧ (b.recordAll edits).inConflict = b.inConflict :=
  recordAll_keeps (P := fun b' => b'.passes = b.passes ∧ b'.inConflict = b.inConflict) ⟨rfl, rfl⟩
    fun _ h _ _ => h

theorem not_oscillates (hfirst : b.passes = 0) : ¬b.Oscillates i text := by
  rintro ⟨w, -, -, hpass⟩
  omega

theorem InStep.run_calm (h : b.InStep values) (hfirst : b.passes = 0) (hcalm : b.inConflict = false)
    (c : Command) : (b.run c).2.passes = 0 ∧ (b.run c).2.inConflict = false := by
  have houtcome := h.outcome_run c
  generalize (b.run c).1 = reply at houtcome
  generalize (b.run c).2 = b' at houtcome ⊢
  cases houtcome with
  | same => exact ⟨hfirst, hcalm⟩
  | staged => exact ⟨hfirst, hcalm⟩
  | refused _ hcause =>
    refine ⟨hfirst, Bool.eq_false_iff.2 fun hconflict => ?_⟩
    rcases hcause hconflict with hconflict | ⟨i, text, hback⟩
    · rw [hcalm] at hconflict
      cases hconflict
    · exact not_oscillates hfirst hback
  | recorded =>
    rw [(recordAll_passes _ _).1, (recordAll_passes _ _).2]
    exact ⟨hfirst, hcalm⟩

theorem InStep.runAll_calm (h : b.InStep values) (hfirst : b.passes = 0)
    (hcalm : b.inConflict = false) (cs : List Command) :
    (b.runAll cs).2.passes = 0 ∧ (b.runAll cs).2.inConflict = false := by
  induction cs generalizing b with
  | nil => exact ⟨hfirst, hcalm⟩
  | cons c cs ih =>
    obtain ⟨hfirst', hcalm'⟩ := h.run_calm hfirst hcalm c
    exact ih (h.run c) hfirst' hcalm'

theorem runAll_set (b : EditBuffer) (cs : List Command) :
    (b.runAll (.beginSet :: cs ++ [.endSet])).1.getLast? = some (.accepted (b.transact cs).1) ∧
      (b.runAll (.beginSet :: cs ++ [.endSet])).2 = (b.transact cs).2 := by
  have hlast : ∀ (cs : List Command) (b : EditBuffer), (b.runAll (cs ++ [.endSet])).1 =
      (b.runAll cs).1 ++ [.accepted (b.runAll cs).2.endSet.1] := by
    intro cs
    induction cs with
    | nil => exact fun b => rfl
    | cons c cs ih => exact fun b => congrArg ((b.run c).1 :: ·) (ih _)
  constructor
  · rw [hlast, List.getLast?_concat]
    rfl
  · rw [runAll_append]
    rfl

theorem InStep.holds (h : b.InStep s.values) : { b with changeSet := none }.Holds s := by
  have hsize : s.values.size = s.size := by simp [TokenStream.values, TokenStream.size]
  exact ⟨rfl, h.size.trans hsize, h.flags.trans hsize, fun i hfree => h.kept i hfree.notMem⟩

/-- In the first pass the change of a gap is made if no value that it is about was edited. -/
theorem InStep.fill {g : Spacing.Gap} {side : Spacing.Side} (h : b.InStep s.values)
    (hfirst : b.passes = 0) (hcalm : b.inConflict = false)
    (hfree : ∀ e ∈ (g.change i side text).edits s, b.IsFree e.1) :
    (b.runAll (g.fill i side text)).1.getLast? = some (.accepted true) ∧
      (b.runAll (g.fill i side text)).2 =
        { b with changeSet := none }.recordAll ((g.change i side text).edits s) := by
  obtain ⟨cs, hfill, hcs⟩ : ∃ cs, g.fill i side text = .beginSet :: cs ++ [.endSet] ∧
      ∀ c ∈ cs, c.isBoundary = false := by
    refine ⟨_, rfl, fun c hc => ?_⟩
    split at hc
    · rcases List.mem_cons.1 hc with rfl | hc
      · rfl
      · obtain ⟨j, -, rfl⟩ := List.mem_map.1 hc
        rfl
    · cases side <;> rw [List.mem_singleton.1 hc] <;> rfl
  -- A change set that is open is dropped.
  have hopen : (b.runAll (g.fill i side text)).2 =
      ({ b with changeSet := none }.runAll (g.fill i side text)).2 := by
    rw [hfill, (runAll_set _ cs).2, (runAll_set _ cs).2]
    simp [transact, beginSet, hcalm]
  have hmade : (b.runAll (g.fill i side text)).2 =
      { b with changeSet := none }.recordAll ((g.change i side text).edits s) := by
    rw [hopen, Spacing.Gap.carries_fill s b.lineBreak g i side text _ h.holds rfl]
    rcases attempt_cases (b := { b with changeSet := none }) hcalm (Change.nodup_edits s _) with
      ⟨heq, -⟩ | ⟨-, e, he, hedited⟩ | ⟨-, e, -, -, hback⟩
    · exact heq
    · exact absurd (hfree e he) hedited
    · exact absurd hback (not_oscillates hfirst)
  refine ⟨?_, hmade⟩
  rw [hfill] at hmade ⊢
  obtain ⟨hreply, hstate⟩ := b.runAll_set cs
  rw [hreply]
  -- A change set that is refused would count no edits.
  rcases transact_cases hcalm hcs with ⟨heq, -⟩ | ⟨conflict, heq, -⟩
  · rw [heq]
  · rw [hstate, heq] at hmade
    have hedits := congrArg EditBuffer.edits hmade
    rw [recordAll_edits] at hedits
    have hpos := List.length_pos_iff.2 ((g.change i side text).edits_ne_nil s)
    simp only at hedits
    omega

theorem rowText_append {a c m : Nat} (ha : a ≤ m) (hm : m ≤ c) :
    b.rowText a c = b.rowText a m ++ b.rowText m c := by
  obtain ⟨n, rfl⟩ := Nat.exists_eq_add_of_le ha
  obtain ⟨n', rfl⟩ := Nat.exists_eq_add_of_le hm
  have hlength : a + n + n' - a = n + n' := by omega
  rw [rowText, rowText, rowText, hlength, Nat.add_sub_cancel_left, Nat.add_sub_cancel_left,
    ← List.flatMap_append, List.range'_append_1]

theorem rowText_singleton (b : EditBuffer) (i : Nat) :
    b.rowText i (i + 1) = b.values[i]?.getD [] := by
  rw [rowText_cons (Nat.lt_succ_self i), rowText_of_le (Nat.le_refl _), List.append_nil]

theorem Holds.rowText_fill {side : Spacing.Side} {token : Token} (hb : b.Holds s)
    (hspans : s.Spans side l r) (htoken : s.get? (side.token l r) = some token)
    (hfree : b.IsFree (side.token l r)) (text : List Char) :
    let done := b.recordAll ((Spacing.Gap.change ⟨l + 1, r⟩ (side.token l r) side text).edits s)
    done.rowText (min (l + 1) (side.token l r)) (max r (side.token l r + 1)) =
      side.attach token.value text := by
  intro done
  have hlt := hspans.lt
  have hold := TwigStyle.value_of_get? htoken
  have hshows : done.Shows s (Spacing.Gap.change ⟨l + 1, r⟩ (side.token l r) side text) := by
    intro e he
    refine hb.recordAll_of_mem (Change.nodup_edits s _) (Change.Within.lt ?_) he
    obtain ⟨t, ht, -⟩ := hspans.bound
    have := TokenStream.get?_lt ht
    have := TokenStream.get?_lt htoken
    unfold Spacing.Gap.change
    cases side <;> split <;> simp_all [Change.Within, Spacing.Side.token, Spacing.Side.bound]
    all_goals omega
  by_cases hrow : l + 1 < r
  · -- The token keeps its value, and the text stands in the gap.
    have hchange : Spacing.Gap.change ⟨l + 1, r⟩ (side.token l r) side text =
        .fill (l + 1) r text := if_pos hrow
    rw [hchange] at hshows
    have hvalue : done.values[side.token l r]?.getD [] = token.value := by
      rw [← hb.value_of_get? hfree htoken]
      refine congrArg (·.getD []) (recordAll_of_notMem ?_).1
      rw [hchange]
      cases side <;> simp [Change.edits, Spacing.Side.token]
      all_goals omega
    cases side with
    | before =>
      change done.rowText (min (l + 1) r) (max r (r + 1)) = text ++ token.value
      rw [Nat.min_eq_left hlt, Nat.max_eq_right (Nat.le_succ r), rowText_append hlt (Nat.le_succ r),
        hshows.rowText hrow, rowText_singleton]
      exact congrArg (text ++ ·) hvalue
    | after =>
      change done.rowText (min (l + 1) l) (max r (l + 1)) = token.value ++ text
      rw [Nat.min_eq_right (Nat.le_succ l), Nat.max_eq_left hlt,
        rowText_append (Nat.le_succ l) (Nat.le_of_lt hrow), hshows.rowText hrow, rowText_singleton]
      exact congrArg (· ++ text) hvalue
  · -- The text is added to the token.
    obtain rfl : r = l + 1 := by omega
    have hrange : min (l + 1) (side.token l (l + 1)) = side.token l (l + 1) ∧
        max (l + 1) (side.token l (l + 1) + 1) = side.token l (l + 1) + 1 := by
      cases side <;> simp [Spacing.Side.token]
    rw [hrange.1, hrange.2, rowText_singleton]
    unfold Spacing.Gap.change at hshows
    rw [if_neg hrow] at hshows
    cases side with
    | before =>
      rw [(hshows _ (List.mem_singleton_self _)).1]
      exact congrArg (text ++ ·) hold
    | after =>
      rw [(hshows _ (List.mem_singleton_self _)).1]
      exact congrArg (· ++ text) hold

end EditBuffer

/-! ### Checked and mended -/

namespace Spacing

variable {table : OperatorTable} {source : List Char} {t : Template} {side : Side} {i n : Nat}
  {token : Token}

/-- **One gap, checked and mended.** Let a spacing want `n` spaces on a side of a token of a template
    without directives.  If no other token bounds the layout on that side, nothing is reported.
    Otherwise there is one violation exactly if the text of the layout has a line break that is not
    accepted, or no line break and it is not `n` spaces.  In the first pass over a file, whatever was
    asked of the buffer before, its repair is accepted if neither the token nor the layout was edited,
    and then the values are the text of the token with `n` spaces on that side. -/
theorem checkSide_repairs (h : tokenize table source = .ok t) (hnone : t.directives = [])
    (sp : Spacing) (htoken : t.stream.get? i = some token)
    (hwanted : sp.wanted? t.stream i side = some n) (rule : Rule) (file : Path) :
    let reported := Ruleset.violationsOf rule file t.directives (sp.checkSide t.stream i side)
    ((∀ l r, t.stream.Spans side l r → side.token l r ≠ i) → reported = []) ∧
    ∀ l r, t.stream.Spans side l r → side.token l r = i →
      let text := t.stream.gapText l r
      let f := finding t.stream i token side ⟨l + 1, r⟩ n
      reported = (if hasBreak text = true ∧ sp.acceptsLineBreak = false ∨
        hasBreak text = false ∧ text ≠ List.replicate n ' ' then [f.violation rule.name file] else []) ∧
      ∀ (before : EditBuffer) (content : List Char) (earlier : List Command),
        let b := (((before.startFile content).startPass.load t.stream.values).runAll earlier).2
        b.IsFree i → (∀ k, l < k → k < r → b.IsFree k) →
          let done := b.runAll (f.repair.getD [])
          done.1.getLast? = some (.accepted true) ∧
            done.2.rowText (min (l + 1) i) (max r (i + 1)) =
              side.attach token.value (List.replicate n ' ') := by
  have hgap : ∀ {g}, gap? t.stream i side = some g ↔
      ∃ l r, t.stream.Spans side l r ∧ side.token l r = i ∧ g = ⟨l + 1, r⟩ :=
    gap?_eq_some_iff (TokenStream.get?_lt htoken)
  have hreported : ∀ fs : List Finding, Ruleset.violationsOf rule file t.directives fs =
      fs.map (·.violation rule.name file) := by
    simp [Ruleset.violationsOf, hnone, Finding.isSilenced, isSuppressed]
  intro reported
  refine ⟨fun hno => ?_, ?_⟩
  · cases hg : gap? t.stream i side with
    | none => simp [reported, hreported, checkSide, hwanted, htoken, hg]
    | some g =>
      obtain ⟨l, r, hspans, hi, -⟩ := hgap.1 hg
      exact absurd hi (hno l r hspans)
  · rintro l r hspans rfl
    refine ⟨?_, ?_⟩
    · refine Eq.trans ?_ (if_congr (accepts_eq_false_iff (tokenize_regular h) hspans.row) rfl rfl)
      cases haccepts : sp.accepts t.stream ⟨l + 1, r⟩ n <;>
        simp [reported, hreported, checkSide, hwanted, htoken, hgap.2 ⟨l, r, hspans, rfl, rfl⟩,
          haccepts]
    · intro before content earlier b hfree hrow
      have hpast := (EditBuffer.Passed.startFile before content).past
      have hstart := EditBuffer.inStep_load hpast t.stream.values
      obtain ⟨hfirst, hcalm⟩ := hstart.runAll_calm rfl rfl earlier
      have hb : b.InStep t.stream.values := hstart.runAll earlier
      have hedits : ∀ e ∈ (Gap.change ⟨l + 1, r⟩ (side.token l r) side
          (List.replicate n ' ')).edits t.stream, b.IsFree e.1 := by
        intro e he
        unfold Gap.change at he
        split at he
        · simp only [Change.edits, List.mem_cons, List.mem_map, List.mem_range'_1] at he
          rcases he with rfl | ⟨k, hk, rfl⟩
          · exact hrow _ (Nat.lt_succ_self l) (by assumption)
          · exact hrow k (by omega) (by omega)
        · cases side <;> rw [List.mem_singleton.1 he] <;> exact hfree
      obtain ⟨hreply, hdone⟩ := hb.fill hfirst hcalm hedits
      have htext := hb.holds.rowText_fill hspans htoken hfree (List.replicate n ' ')
      rw [← hdone] at htext
      exact ⟨hreply, htext⟩

/-- A tab and a space before the end of a variable are reported, and become one space. -/
theorem checkSide_repairs_mixed :
    ∃ t token, tokenize .default "\x7b\x7b a\t \x7d\x7d".toList = .ok t ∧
      t.stream.get? 5 = some token ∧
      (∃ v, Ruleset.violationsOf .delimiterSpacing ⟨"a.twig"⟩ t.directives
        (delimiters.checkSide t.stream 5 .before) = [v]) ∧
      (((({} : EditBuffer).startFile []).startPass.load t.stream.values).runAll
        ((finding t.stream 5 token .before ⟨3, 5⟩ 1).repair.getD [])).2.rowText 3 6 =
          " \x7d\x7d".toList := by
  obtain ⟨t, ht, hfacts⟩ := exists_ok_of_map (b := true)
    (x := tokenize .default "\x7b\x7b a\t \x7d\x7d".toList)
    (f := fun t => t.directives.isEmpty && (t.stream.get? 2).any (·.kind == .name) &&
      [3, 4].all (t.stream.kindIn · gapKinds) && t.stream.gapText 2 5 == ['\t', ' '] &&
      (t.stream.get? 5).any (·.value == "\x7d\x7d".toList) &&
      delimiters.wanted? t.stream 5 .before == some 1)
    (by decide +kernel)
  simp only [Bool.and_eq_true, List.isEmpty_iff, Option.any_eq_true, List.all_eq_true,
    beq_iff_eq] at hfacts
  obtain ⟨⟨⟨⟨⟨hnone, name, hname, hkind⟩, hrow⟩, htext⟩, token, htoken, hvalue⟩, hwanted⟩ := hfacts
  have hspans : t.stream.Spans .before 2 5 :=
    ⟨by decide, fun k hl hr => hrow k (by simp; omega), name, hname, by rw [hkind]; decide⟩
  have hfree := (EditBuffer.untouched_load (({} : EditBuffer).startFile []) t.stream).free
  have hsize := TokenStream.get?_lt htoken
  obtain ⟨hreported, hmended⟩ := (checkSide_repairs ht hnone delimiters htoken hwanted
    .delimiterSpacing ⟨"a.twig"⟩).2 2 5 hspans rfl
  rw [htext, if_pos (by decide)] at hreported
  obtain ⟨-, hdone⟩ := hmended {} [] [] (hfree 5 hsize) fun k _ hr => hfree k (hr.trans hsize)
  rw [hvalue] at hdone
  exact ⟨t, token, ht, htoken, ⟨_, hreported⟩, hdone⟩

end Spacing

end TwigStyle
