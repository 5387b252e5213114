import TwigStyle.Proofs.Ids

/-!
# Which ids can be printed

Reading an id takes any text: it trims, it cuts at three dots and colons at most, and what is no number is
absent.  Whatever the text was, the parts that come out are legible (`ViolationId.legible_parse`), so
what is written of them is read back.  Printing what was read is therefore stable after one round.

`ViolationId.Printable` adds to legibility that no part is dropped when the id is written.  These are
exactly the ids that come back from their text.
-/

namespace TwigStyle

namespace Text

variable {t w : List Char} {c d : Char} {i n : Nat}

/-! ### Trimming -/

theorem head?_trimStart (t : List Char) : ∀ c ∈ (trimStart t).head?, isBlank c = false := by
  intro c hc
  have hhead := List.head?_dropWhile_not isBlank t
  rw [show (t.dropWhile isBlank).head? = some c from hc] at hhead
  exact hhead

theorem getLast?_trimEnd (t : List Char) : ∀ c ∈ (trimEnd t).getLast?, isBlank c = false := by
  rw [trimEnd, List.getLast?_reverse]
  exact head?_trimStart t.reverse

theorem trimEnd_isPrefix (t : List Char) : trimEnd t <+: t := by
  rw [← List.reverse_suffix, trimEnd, List.reverse_reverse]
  exact List.dropWhile_suffix isBlank

theorem trim_sublist (t : List Char) : (trim t).Sublist t :=
  (trimEnd_isPrefix (trimStart t)).sublist.trans (List.dropWhile_sublist isBlank)

theorem tight_trim (t : List Char) : Tight (trim t) := by
  refine ⟨?_, getLast?_trimEnd (trimStart t)⟩
  intro c hc
  obtain ⟨r, hr⟩ := trimEnd_isPrefix (trimStart t)
  apply head?_trimStart t c
  rw [← hr, List.head?_append]
  exact Option.mem_def.2 (by rw [show (trimEnd (trimStart t)).head? = some c from hc]; rfl)

theorem trim_eq_self_iff : trim t = t ↔ Tight t :=
  ⟨fun h => h ▸ tight_trim t, trim_of_tight⟩

instance (t : List Char) : Decidable (Tight t) := decidable_of_iff _ trim_eq_self_iff

/-! ### Pieces -/

theorem mem_of_mem_splitAtMost (hw : w ∈ splitAtMost c n t) (hd : d ∈ w) : d ∈ t := by
  fun_induction splitAtMost c n t generalizing w with
  | case1 t => rwa [← List.mem_singleton.1 hw]
  | case2 n =>
    rw [List.mem_singleton.1 hw] at hd
    cases hd
  | case3 n a cs _ ih =>
    rcases List.mem_cons.1 hw with rfl | hw
    · cases hd
    · exact List.mem_cons_of_mem a (ih hw hd)
  | case4 n a cs _ _ _ =>
    rw [List.mem_singleton.1 hw] at hd
    rw [List.mem_singleton.1 hd]
    exact List.mem_cons_self
  | case5 n a cs _ piece pieces hpieces ih =>
    rw [hpieces] at ih
    rcases List.mem_cons.1 hw with rfl | hw
    · rcases List.mem_cons.1 hd with rfl | hd
      · exact List.mem_cons_self
      · exact List.mem_cons_of_mem a (ih List.mem_cons_self hd)
    · exact List.mem_cons_of_mem a (ih (List.mem_cons_of_mem piece hw) hd)

theorem notMem_of_splitAtMost (hw : (splitAtMost c n t)[i]? = some w) (hi : i < n) : c ∉ w := by
  fun_induction splitAtMost c n t generalizing i w with
  | case1 t => exact absurd hi (Nat.not_lt_zero i)
  | case2 n =>
    rw [List.mem_singleton.1 (List.mem_of_getElem? hw)]
    exact List.not_mem_nil
  | case3 n a cs _ ih =>
    cases i with
    | zero =>
      cases hw
      exact List.not_mem_nil
    | succ i => exact ih hw (Nat.lt_of_succ_lt_succ hi)
  | case4 n a cs ha _ _ =>
    rw [List.mem_singleton.1 (List.mem_of_getElem? hw), List.mem_singleton]
    rintro rfl
    exact ha (beq_self_eq_true c)
  | case5 n a cs ha piece pieces hpieces ih =>
    rw [hpieces] at ih
    cases i with
    | zero =>
      cases hw
      rw [List.mem_cons, not_or]
      refine ⟨?_, ih (i := 0) rfl hi⟩
      rintro rfl
      exact ha (beq_self_eq_true c)
    | succ i => exact ih (i := i + 1) hw hi

theorem le_of_readNat? (h : readNat? t = some n) : n ≤ maxCount := by
  have hdigits : ∀ {t}, readDigits? t = some n → n ≤ maxCount := by
    intro t h
    unfold readDigits? at h
    split at h
    · cases h
    · dsimp only at h
      split at h
      · cases h
        assumption
      · cases h
  unfold readNat? at h
  split at h
  · exact hdigits h
  · exact hdigits h

end Text

namespace ViolationId

variable {id : ViolationId} {piece : Option (List Char)} {t : List Char} {s : String} {n : Nat}

/-! ### What is read is legible -/

theorem namePart?_eq_some_iff :
    namePart? piece = some s ↔ ∃ w, piece = some w ∧ Text.trim w = s.toList ∧ s.toList ≠ [] := by
  cases piece with
  | none => simp [namePart?]
  | some w =>
    rw [namePart?, Option.map_some]
    cases htrim : Text.trim w with
    | nil => simp [htrim]
    | cons c v =>
      simp only [Option.some.injEq]
      constructor
      · rintro rfl
        exact ⟨w, rfl, by simp [htrim], by simp⟩
      · rintro ⟨w', rfl, hs, -⟩
        rw [← htrim, hs, String.ofList_toList]

theorem isPart_of_namePart? (h : namePart? piece = some s) (hpiece : ∀ w ∈ piece, ':' ∉ w) :
    IsPart s := by
  obtain ⟨w, rfl, hs, hne⟩ := namePart?_eq_some_iff.1 h
  refine ⟨hne, ?_, ?_⟩
  · rw [← hs]
    exact Text.tight_trim w
  · rw [← hs]
    exact fun hmem => hpiece w rfl ((Text.trim_sublist w).mem hmem)

theorem dot_notMem_of_namePart? (h : namePart? piece = some s) (hpiece : ∀ w ∈ piece, '.' ∉ w) :
    '.' ∉ s.toList := by
  obtain ⟨w, rfl, hs, -⟩ := namePart?_eq_some_iff.1 h
  rw [← hs]
  exact fun hmem => hpiece w rfl ((Text.trim_sublist w).mem hmem)

theorem le_of_countPart? (h : countPart? piece = some n) : n ≤ Text.maxCount := by
  obtain ⟨w, -, hw⟩ := Option.bind_eq_some_iff.1 h
  exact Text.le_of_readNat? hw

/-- **What is read from a text is legible,** whatever the text is. -/
theorem legible_parse (t : List Char) : (parse t none).Legible := by
  have hcolon : ∀ {i : Nat} {w : List Char}, (Text.splitAtMost '.' 2
      ((Text.splitWhere (· == ':') (Text.trim t)).headD []))[i]? = some w → ':' ∉ w := by
    intro i w hw hmem
    have hhead := Text.mem_of_mem_splitAtMost (List.mem_of_getElem? hw) hmem
    rw [Text.headD_splitWhere] at hhead
    simpa using List.all_eq_true.1 List.all_takeWhile _ hhead
  constructor
  · intro s hs
    exact ⟨isPart_of_namePart? hs fun w hw => hcolon hw,
      dot_notMem_of_namePart? hs fun w hw => Text.notMem_of_splitAtMost hw (by decide)⟩
  · intro s hs
    exact ⟨isPart_of_namePart? hs fun w hw => hcolon hw,
      dot_notMem_of_namePart? hs fun w hw => Text.notMem_of_splitAtMost hw (by decide)⟩
  · intro s hs
    exact isPart_of_namePart? hs fun w hw => hcolon hw
  · intro n hn
    change (countPart? _).or none = some n at hn
    rw [Option.or_none] at hn
    exact le_of_countPart? hn
  · intro n hn
    exact le_of_countPart? hn

/-! ### What is written -/

theorem display_written (id : ViolationId) : id.written.display = id.display := by
  obtain ⟨rule, sub, token, line, column⟩ := id
  cases sub <;> cases line <;> rfl

theorem Legible.written (h : id.Legible) : id.written.Legible where
  rule := h.rule
  sub := h.sub
  token s hs := by
    obtain ⟨-, -, hs⟩ := Option.bind_eq_some_iff.1 hs
    exact h.token s hs
  line := h.line
  column n hn := by
    obtain ⟨-, -, hn⟩ := Option.bind_eq_some_iff.1 hn
    exact h.column n hn

/-- A legible id of which every part is written: a token only with a sub id, a column only with a
    line. -/
structure Printable (id : ViolationId) : Prop extends Legible id where
  token_sub : id.token.isSome = true → id.sub.isSome = true
  column_line : id.column.isSome = true → id.line.isSome = true

instance (s : String) : Decidable (IsPart s) :=
  decidable_of_iff (s.toList ≠ [] ∧ Text.Tight s.toList ∧ ':' ∉ s.toList)
    ⟨fun h => ⟨h.1, h.2.1, h.2.2⟩, fun h => ⟨h.nonempty, h.tight, h.colon⟩⟩

instance (id : ViolationId) : Decidable (Legible id) :=
  decidable_of_iff
    ((∀ s ∈ id.rule, IsPart s ∧ '.' ∉ s.toList) ∧ (∀ s ∈ id.sub, IsPart s ∧ '.' ∉ s.toList) ∧
      (∀ s ∈ id.token, IsPart s) ∧ (∀ n ∈ id.line, n ≤ Text.maxCount) ∧
      ∀ n ∈ id.column, n ≤ Text.maxCount)
    ⟨fun h => ⟨h.1, h.2.1, h.2.2.1, h.2.2.2.1, h.2.2.2.2⟩,
      fun h => ⟨h.rule, h.sub, h.token, h.line, h.column⟩⟩

instance (id : ViolationId) : Decidable (Printable id) :=
  decidable_of_iff
    (id.Legible ∧ (id.token.isSome = true → id.sub.isSome = true) ∧
      (id.column.isSome = true → id.line.isSome = true))
    ⟨fun h => ⟨h.1, h.2.1, h.2.2⟩, fun h => ⟨h.toLegible, h.token_sub, h.column_line⟩⟩

theorem Printable.written_eq (h : id.Printable) : id.written = id := by
  obtain ⟨rule, sub, token, line, column⟩ := id
  obtain ⟨-, htoken, hcolumn⟩ := h
  have htoken : (sub.bind fun _ => token) = token := by
    cases sub with
    | some s => rfl
    | none =>
      cases token with
      | none => rfl
      | some s => cases htoken rfl
  have hcolumn : (line.bind fun _ => column) = column := by
    cases line with
    | some n => rfl
    | none =>
      cases column with
      | none => rfl
      | some n => cases hcolumn rfl
  simp only [written, htoken, hcolumn]

theorem parse_display_parse (t : List Char) :
    parse (parse t none).display none = (parse t none).written := by
  rw [parse_display (legible_parse t).written, Option.or_none]
  rfl

theorem printable_of_parse_display (h : parse id.display none = id) : id.Printable := by
  have hlegible : id.Legible := h ▸ legible_parse id.display
  have hwritten : id.written = id := by
    have hread := parse_display hlegible.written none
    rw [h, Option.or_none] at hread
    exact hread.symm
  refine ⟨hlegible, ?_, ?_⟩
  · intro htoken
    rw [← hwritten] at htoken
    cases hsub : id.sub with
    | some s => rfl
    | none => simp [written, hsub] at htoken
  · intro hcolumn
    rw [← hwritten] at hcolumn
    cases hline : id.line with
    | some n => rfl
    | none => simp [written, hline] at hcolumn

/-- **Reading inverts printing.** A printable id comes back from its text, with the line that is taken for
    an absent one, and no other id does.  For any text, printing is stable once it was read. -/
theorem parse_inverts_display :
    (∀ id : ViolationId, id.Printable → ∀ defaultLine : Option Nat,
      parse id.display defaultLine = { id with line := id.line.or defaultLine }) ∧
    (∀ id : ViolationId, parse id.display none = id → id.Printable) ∧
    ∀ t : List Char, (parse (parse t none).display none).display = (parse t none).display := by
  refine ⟨?_, fun id => printable_of_parse_display, ?_⟩
  · intro id h defaultLine
    have hread := parse_display h.toLegible.written defaultLine
    rwa [h.written_eq] at hread
  · intro t
    rw [parse_display_parse, display_written]

/-- A part with a blank and one with a dot, without a line; and a text with a column beyond all counts. -/
theorem parse_inverts_display_dotted :
    Printable { rule := some "My rule", sub := some "After", token := some "a.b" } ∧
    parse "My rule.After.a.b".toList (some 7) =
      { rule := some "My rule", sub := some "After", token := some "a.b", line := some 7 } ∧
    (parse " R .. T : +07 : 18446744073709551616 : x".toList none).display = "R:7".toList ∧
    (parse "R:7".toList none).display = "R:7".toList := by
  have hprintable : Printable { rule := some "My rule", sub := some "After", token := some "a.b" } := by
    decide +kernel
  have hread : (parse " R .. T : +07 : 18446744073709551616 : x".toList none).display =
      "R:7".toList := by
    decide +kernel
  refine ⟨hprintable, ?_, hread, ?_⟩
  · exact parse_inverts_display.1 _ hprintable (some 7)
  · have hstable := parse_inverts_display.2.2 " R .. T : +07 : 18446744073709551616 : x".toList
    rwa [hread] at hstable

end ViolationId

end TwigStyle
