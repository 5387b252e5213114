import TwigStyle.Fix.Fixer
import TwigStyle.Proofs.Edits
import TwigStyle.Proofs.Scans

/-!
# What rules do to a buffer

The repairs of the built-in rules are written as commands, but each of them is one `Change`: a row
of tokens is filled with one text, or a text is put before or after a token.  `Carries` says that
some commands amount to a change, whatever was edited before; `Proposes` lists the changes that the
rules propose, each with the reason for it; and `exists_proposes` says that the list is complete.

A pass is then a row of attempts, one for each finding that is not silenced: `pass_buffer`.
-/

namespace TwigStyle

/-! ### Buffers of a stream -/

namespace EditBuffer

variable {b : EditBuffer} {s : TokenStream} {i j : Nat} {text : List Char}
  {edits : List (Nat × List Char)}

/-- The buffer holds the values of a stream, apart from those edited in this pass. -/
structure Holds (b : EditBuffer) (s : TokenStream) : Prop where
  idle : b.changeSet = none
  size : b.values.size = s.size
  flags : b.edited.size = s.size
  value : ∀ i, b.IsFree i → b.values[i]? = s.values[i]?

theorem Holds.not_isFree_record (h : b.Holds s) : ¬(b.record i text).IsFree i := by
  rintro ⟨hlt, hflag⟩
  have hlt : i < b.edited.size := by simpa [record, commit, h.size, h.flags] using hlt
  simp [record, commit, hlt] at hflag

theorem Holds.record (h : b.Holds s) : (b.record i text).Holds s := by
  refine ⟨h.idle, ?_, ?_, ?_⟩
  · simp [EditBuffer.record, commit, h.size]
  · simp [EditBuffer.record, commit, h.flags]
  · intro j hj
    have hne : j ≠ i := by
      rintro rfl
      exact h.not_isFree_record hj
    rw [← h.value j ((isFree_record_of_ne hne).1 hj)]
    exact Array.getElem?_setIfInBounds_ne (Ne.symm hne)

theorem Holds.recordAll (h : b.Holds s) : (b.recordAll edits).Holds s :=
  recordAll_keeps (P := (·.Holds s)) h fun _ h _ _ => h.record

theorem Holds.attempt (h : b.Holds s) (hnodup : (edits.map Prod.fst).Nodup) :
    (b.attempt edits).Holds s :=
  attempt_keeps (P := (·.Holds s)) hnodup h (fun _ _ => h.recordAll)
    ⟨h.idle, h.size, h.flags, h.value⟩

theorem holds_load (hidle : b.changeSet = none) (s : TokenStream) : (b.load s.values).Holds s := by
  refine ⟨hidle, ?_, ?_, fun i _ => rfl⟩
  · simp [load, TokenStream.values, TokenStream.size]
  · simp [load, TokenStream.values, TokenStream.size]

end EditBuffer

/-! ### Changes -/

/-- One change of the values of a stream. -/
inductive Change where
  /-- The tokens from `start` up to, not including, `stop` become one text. -/
  | fill (start stop : Nat) (text : List Char)
  | append (i : Nat) (text : List Char)
  | prepend (i : Nat) (text : List Char)
deriving DecidableEq, Repr

namespace Change

/-- The new values that a change gives to tokens of a stream. -/
def edits (s : TokenStream) : Change → List (Nat × List Char)
  | fill start stop text =>
    (start, text) :: (List.range' (start + 1) (stop - start - 1)).map fun j => (j, [])
  | append i text => [(i, s.values[i]?.getD [] ++ text)]
  | prepend i text => [(i, text ++ s.values[i]?.getD [])]

/-- The change is about tokens of the stream. -/
def Within (s : TokenStream) : Change → Prop
  | fill start stop _ => start < stop ∧ stop ≤ s.size
  | append i _ => i < s.size
  | prepend i _ => i < s.size

theorem edits_ne_nil (s : TokenStream) (ch : Change) : ch.edits s ≠ [] := by
  cases ch <;> exact List.cons_ne_nil _ _

theorem nodup_edits (s : TokenStream) (ch : Change) : ((ch.edits s).map Prod.fst).Nodup := by
  cases ch with
  | fill start stop text =>
    have hmap : ((fill start stop text).edits s).map Prod.fst =
        List.range' start (stop - start - 1 + 1) := by
      simp [edits, List.map_map, Function.comp_def, List.range'_succ]
    rw [hmap]
    exact List.nodup_range'
  | append | prepend => simp [edits]

theorem Within.lt {s : TokenStream} {ch : Change} (h : ch.Within s) :
    ∀ e ∈ ch.edits s, e.1 < s.size := by
  intro e he
  cases ch with
  | fill start stop text =>
    obtain ⟨hlt, hle⟩ := h
    simp only [edits, List.mem_cons, List.mem_map, List.mem_range'_1] at he
    rcases he with rfl | ⟨j, hj, rfl⟩
    · change start < s.size
      omega
    · change j < s.size
      omega
  | append i text | prepend i text =>
    rw [List.mem_singleton.1 he]
    exact h

end Change

/-! ### Commands that amount to a change -/

/-- In every buffer of the stream, for a file with this line break, the commands do what trying the
    change does. -/
def Carries (s : TokenStream) (lineBreak : List Char) (cmds : List Command) (ch : Change) : Prop :=
  ∀ b : EditBuffer, b.Holds s → b.lineBreak = lineBreak →
    (b.runAll cmds).2 = b.attempt (ch.edits s)

namespace Carries

variable {s : TokenStream} {lineBreak : List Char} {start stop i : Nat} {text : List Char}

/-- One token is replaced and the tokens after it are emptied. -/
theorem fill {what : Insertion} (htext : ∀ b : EditBuffer, b.lineBreak = lineBreak →
      b.insertionText what = text) :
    Carries s lineBreak
      (.beginSet :: (.replace start what ::
        (List.range' (start + 1) (stop - start - 1)).map fun j => .replace j (.text [])) ++ [.endSet])
      (.fill start stop text) := by
  intro b hb hbreak
  let changes : List (Nat × Insertion) :=
    (start, what) :: (List.range' (start + 1) (stop - start - 1)).map fun j => (j, .text [])
  have hedits : changes.map (fun e => (e.1, b.insertionText e.2)) =
      (Change.fill start stop text).edits s := by
    simp only [changes, Change.edits, List.map_cons, List.map_map, htext b hbreak]
    rfl
  have hnodup : (changes.map Prod.fst).Nodup := by
    have := Change.nodup_edits s (.fill start stop text)
    rw [← hedits, List.map_map] at this
    exact this
  have hrun := EditBuffer.runAll_replaceSet hb.idle hnodup
  rw [hedits] at hrun
  rw [← hrun]
  simp only [changes, List.map_cons, List.map_map]
  rfl

theorem clear (h : start < stop) :
    Carries s lineBreak (Layout.atOnce (Layout.clear start stop)) (.fill start stop []) := by
  have hrange : List.range' start (stop - start) =
      start :: List.range' (start + 1) (stop - start - 1) := by
    obtain ⟨n, hn⟩ : ∃ n, stop - start = n + 1 := ⟨stop - start - 1, by omega⟩
    rw [hn, List.range'_succ, Nat.add_sub_cancel]
  rw [Layout.atOnce, Layout.clear, hrange, List.map_cons]
  exact fill fun _ _ => rfl

/-- A value that builds on an edited one is refused like any other; a free one is that of the
    stream. -/
theorem attempt_value {b : EditBuffer} (hb : b.Holds s) (f : List Char → List Char) :
    b.attempt ((b.values[i]?.map fun v => (i, f v)).toList) =
      b.attempt [(i, f (s.values[i]?.getD []))] := by
  by_cases hfree : b.IsFree i
  · have hvalue := hb.value i hfree
    rw [Array.getElem?_eq_getElem hfree.1] at hvalue ⊢
    rw [← hvalue]
    rfl
  · have hrefused : ∀ text, b.attempt [(i, text)] = b := by
      intro text
      rw [EditBuffer.attempt_singleton, EditBuffer.write_of_not_isFree hfree]
    rw [hrefused]
    cases b.values[i]? with
    | some v => exact hrefused (f v)
    | none =>
      by_cases hconflict : b.inConflict = true
      · exact EditBuffer.attempt_of_inConflict hconflict
      · simp [EditBuffer.attempt, hconflict, EditBuffer.applyStaged]

theorem appendSet :
    Carries s lineBreak [.beginSet, .append i (.text text), .endSet] (.append i text) := by
  intro b hb _
  rw [EditBuffer.runAll_modifySet (i := i) (f := (· ++ text)) hb.idle fun _ => rfl,
    attempt_value hb]
  rfl

theorem prependSet :
    Carries s lineBreak [.beginSet, .prepend i (.text text), .endSet] (.prepend i text) := by
  intro b hb _
  rw [EditBuffer.runAll_modifySet (i := i) (f := (text ++ ·)) hb.idle fun _ => rfl,
    attempt_value hb]
  rfl

theorem appendLineBreak : Carries s lineBreak [.append i .lineBreak] (.append i lineBreak) := by
  intro b hb hbreak
  change (b.modify i _).2 = _
  rw [EditBuffer.modify_eq hb.idle, attempt_value hb, EditBuffer.insertionText, hbreak]
  rfl

theorem replace : Carries s lineBreak [.replace i (.text text)] (.fill i (i + 1) text) := by
  intro b hb _
  have hedits : (Change.fill i (i + 1) text).edits s = [(i, text)] := by simp [Change.edits]
  rw [hedits, EditBuffer.attempt_singleton]
  change (b.replace i text).2 = _
  by_cases hconflict : b.inConflict = true
  · simp [EditBuffer.replace, hconflict, EditBuffer.write_of_inConflict hconflict]
  · simp [EditBuffer.replace, hconflict, hb.idle]

end Carries

/-! ### What rules propose -/

/-- The change that fills a gap. -/
def Spacing.Gap.change (g : Spacing.Gap) (i : Nat) (side : Spacing.Side) (text : List Char) :
    Change :=
  if g.start < g.stop then .fill g.start g.stop text
  else match side with
    | .before => .prepend i text
    | .after => .append i text

theorem Spacing.Gap.carries_fill (s : TokenStream) (lineBreak : List Char) (g : Spacing.Gap)
    (i : Nat) (side : Spacing.Side) (text : List Char) :
    Carries s lineBreak (g.fill i side text) (g.change i side text) := by
  unfold fill change
  split
  · exact Carries.fill fun _ _ => rfl
  · cases side with
    | before => exact Carries.prependSet
    | after => exact Carries.appendSet

/-- The change that makes the end of a file one line break. -/
def Layout.endChange (start stop : Nat) (lineBreak : List Char) : Change :=
  if start < stop then .fill start stop lineBreak else .append (start - 1) lineBreak

theorem Layout.carries_endLine (s : TokenStream) (lineBreak : List Char) (start stop : Nat) :
    Carries s lineBreak (endLine start stop) (endChange start stop lineBreak) := by
  unfold endLine endChange
  split
  · have hclear : clear (start + 1) stop =
        (List.range' (start + 1) (stop - start - 1)).map fun j => .replace j (.text []) := by
      rw [clear, Nat.sub_sub]
    rw [atOnce, hclear]
    exact Carries.fill fun _ hbreak => hbreak
  · exact Carries.appendLineBreak

/-- A rule without its path limits. -/
def Rule.base : Rule → Rule
  | onPaths inner _ => inner.base
  | r => r

/-- The spacing that a built-in rule enforces. -/
def Rule.spacing? : Rule → Option Spacing
  | delimiterSpacing => some Spacing.delimiters
  | operatorSpacing => some Spacing.operators
  | punctuationSpacing => some Spacing.punctuation
  | _ => none

/-- A built-in rule proposes a change of a stream. -/
inductive Proposes (s : TokenStream) (lineBreak : List Char) : Rule → Change → Prop
  /-- A gap is not as a token wants it. -/
  | gap {r : Rule} {sp : Spacing} {i wanted : Nat} {side : Spacing.Side} {g : Spacing.Gap}
      (hsp : r.spacing? = some sp) (hi : i < s.size) (hwanted : sp.wanted? s i side = some wanted)
      (hgap : Spacing.gap? s i side = some g) (hbad : sp.accepts s g wanted = false) :
    Proposes s lineBreak r (g.change i side (List.replicate wanted ' '))
  /-- Blanks stand at the end of a line. -/
  | trailing {i : Nat} (hend : s.kindIn i Layout.lineEnds = true)
      (hstart : Layout.blanksStart s i < i) :
    Proposes s lineBreak .trailingSpace (.fill (Layout.blanksStart s i) i [])
  /-- There is nothing but blank lines. -/
  | onlyBlank {i : Nat} (hi : 0 < i) (hend : s.kindIn i [.eof] = true)
      (hnone : s.previousOutside Layout.blankLines i = none) :
    Proposes s lineBreak .blankEof (.fill 0 i [])
  /-- The file does not end with one line break. -/
  | lineEnd {i last : Nat} (hend : s.kindIn i [.eof] = true)
      (hlast : s.previousOutside Layout.blankLines i = some last)
      (hbad : Layout.lineBreaks s (last + 1) i ≠ 1) :
    Proposes s lineBreak .blankEof (Layout.endChange (last + 1) i lineBreak)
  /-- Tabs stand in the indentation. -/
  | tabs {i width : Nat} {token : Token} (hget : s.get? i = some token)
      (hkind : token.kind = .tabs ∨ token.kind = .commentTabs)
      (hindent : Layout.inIndentation s i = true) :
    Proposes s lineBreak (.indent width)
      (.fill i (i + 1) (List.replicate (width * token.value.length) ' '))
  /-- A limit to some paths changes nothing. -/
  | onPaths {r : Rule} {globs : List Glob} {ch : Change} (h : Proposes s lineBreak r ch) :
    Proposes s lineBreak (.onPaths r globs) ch

section Findings

variable {s : TokenStream} {lineBreak : List Char} {f : Finding} {i : Nat} {r : Rule} {ch : Change}
  {sp : Spacing} {side : Side} {g : Gap}

theorem Spacing.mem_check_iff :
    f ∈ sp.check s i ↔ ∃ side wanted token g, sp.wanted? s i side = some wanted ∧
      s.get? i = some token ∧ gap? s i side = some g ∧ sp.accepts s g wanted = false ∧
      f = finding s i token side g wanted := by
  have hside : ∀ side, f ∈ sp.checkSide s i side ↔ ∃ wanted token g,
      sp.wanted? s i side = some wanted ∧ s.get? i = some token ∧ gap? s i side = some g ∧
      sp.accepts s g wanted = false ∧ f = finding s i token side g wanted := by
    intro side
    unfold checkSide
    split
    · rename_i wanted token g hwanted htoken hgap
      cases haccepts : sp.accepts s g wanted <;> simp [hwanted, htoken, hgap, haccepts]
    · rename_i hno
      simp only [List.not_mem_nil, false_iff]
      rintro ⟨wanted, token, g, hwanted, htoken, hgap, -⟩
      exact hno wanted token g hwanted htoken hgap
  rw [check, List.mem_append, hside, hside]
  constructor
  · rintro (h | h)
    · exact ⟨.after, h⟩
    · exact ⟨.before, h⟩
  · rintro ⟨_ | _, h⟩
    · exact .inr h
    · exact .inl h

theorem Layout.blanksStart_le (hi : i ≤ s.size) : blanksStart s i ≤ i := by
  unfold blanksStart
  split
  · exact Nat.zero_le i
  · rename_i j hj
    exact ((TokenStream.previousOutside_eq_some_iff hi).1 hj).1

theorem Layout.proposes_of_trailingSpace (h : f ∈ trailingSpace s i) :
    ∃ ch, Proposes s lineBreak .trailingSpace ch ∧ Carries s lineBreak (f.repair.getD []) ch := by
  unfold trailingSpace at h
  split at h
  · cases h
  · rename_i hend
    simp only at h
    split at h
    · cases h
    · rename_i hstart
      split at h
      · cases h
      · rw [List.mem_singleton.1 h]
        have hend : s.kindIn i lineEnds = true := by
          simp at hend
          exact hend.2
        have hle := blanksStart_le (Nat.le_of_lt (TokenStream.lt_of_kindIn hend))
        have hlt : blanksStart s i < i := by
          simp only [beq_iff_eq] at hstart
          omega
        exact ⟨_, .trailing hend hlt, Carries.clear hlt⟩

theorem Layout.proposes_of_blankEof (h : f ∈ blankEof s i) :
    ∃ ch, Proposes s lineBreak .blankEof ch ∧ Carries s lineBreak (f.repair.getD []) ch := by
  unfold blankEof at h
  split at h
  · cases h
  · rename_i token htoken
    split at h
    · cases h
    · rename_i hend
      have hend : 0 < i ∧ token.kind = .eof := by
        simp at hend
        exact ⟨by omega, hend.2⟩
      have hkind : s.kindIn i [.eof] = true := by
        rw [TokenStream.kindIn_of_get? htoken, hend.2]
        rfl
      split at h
      · rename_i hnone
        rw [List.mem_singleton.1 h]
        exact ⟨_, .onlyBlank hend.1 hkind hnone, Carries.clear hend.1⟩
      · rename_i last hlast
        simp only at h
        split at h
        · cases h
        · rename_i hbad
          rw [List.mem_singleton.1 h]
          exact ⟨_, .lineEnd hkind hlast (by simpa using hbad), carries_endLine _ _ _ _⟩

theorem Layout.proposes_of_indent {width : Nat} (h : f ∈ indent width s i) :
    ∃ ch, Proposes s lineBreak (.indent width) ch ∧ Carries s lineBreak (f.repair.getD []) ch := by
  unfold indent at h
  split at h
  · cases h
  · rename_i token htoken
    split at h
    · rename_i htabs
      simp only [Bool.and_eq_true, Bool.or_eq_true, beq_iff_eq] at htabs
      rw [List.mem_singleton.1 h]
      exact ⟨_, .tabs htoken htabs.1 htabs.2, Carries.replace⟩
    · cases h

/-- Every finding of a fixable built-in rule proposes a change, which its repair carries. -/
theorem exists_proposes (hbuiltIn : r.isBuiltIn = true) (hfixable : r.isFixable = true)
    (h : f ∈ r.findings s) :
    ∃ ch, Proposes s lineBreak r ch ∧ Carries s lineBreak (f.repair.getD []) ch := by
  obtain ⟨i, -, hf⟩ := List.mem_flatMap.1 h
  have hspacing : ∀ {r : Rule} {sp : Spacing}, r.spacing? = some sp → f ∈ sp.check s i →
      ∃ ch, Proposes s lineBreak r ch ∧ Carries s lineBreak (f.repair.getD []) ch := by
    intro r sp hsp hmem
    obtain ⟨side, wanted, token, g, hwanted, htoken, hgap, hbad, rfl⟩ := Spacing.mem_check_iff.1 hmem
    exact ⟨_, .gap hsp (TokenStream.get?_lt htoken) hwanted hgap hbad, g.carries_fill _ _ _ _ _⟩
  induction r with
  | delimiterSpacing => exact hspacing rfl hf
  | operatorSpacing => exact hspacing rfl hf
  | punctuationSpacing => exact hspacing rfl hf
  | variableName => cases hfixable
  | blankEof => exact Layout.proposes_of_blankEof hf
  | indent width => exact Layout.proposes_of_indent hf
  | trailingSpace => exact Layout.proposes_of_trailingSpace hf
  | rename | marker | spacing | script => cases hbuiltIn
  | onPaths inner globs ih =>
    obtain ⟨ch, hch, hcarries⟩ := ih hbuiltIn hfixable h hf
    exact ⟨ch, .onPaths hch, hcarries⟩

theorem Proposes.isFixable (h : Proposes s lineBreak r ch) : r.isFixable = true := by
  induction h with
  | @gap r _ _ _ _ _ hsp _ _ _ _ => cases r <;> first | rfl | cases hsp
  | trailing | onlyBlank | lineEnd | tabs => rfl
  | onPaths _ ih => exact ih

theorem Proposes.exists_finding (h : Proposes s lineBreak r ch) :
    ∃ f ∈ r.findings s, Carries s lineBreak (f.repair.getD []) ch := by
  have hfound : ∀ {r : Rule} {i : Nat} {cmds : List Command} {ch : Change}, i < s.size →
      (∃ f ∈ r.check s i, f.repair = some cmds) → Carries s lineBreak cmds ch →
      ∃ f ∈ r.findings s, Carries s lineBreak (f.repair.getD []) ch := by
    rintro r i cmds ch hi ⟨f, hf, hrepair⟩ hcarries
    exact ⟨f, List.mem_flatMap.2 ⟨i, List.mem_range.2 hi, hf⟩, by rwa [hrepair]⟩
  induction h with
  | @gap r sp i wanted side g hsp hi hwanted hgap hbad =>
    obtain ⟨token, htoken⟩ := TokenStream.exists_get? hi
    refine hfound hi ⟨Spacing.finding s i token side g wanted, ?_, rfl⟩
      (g.carries_fill s lineBreak i side _)
    have hf : Spacing.finding s i token side g wanted ∈ sp.check s i :=
      Spacing.mem_check_iff.2 ⟨side, wanted, token, g, hwanted, htoken, hgap, hbad, rfl⟩
    cases r <;> first | cases hsp; exact hf | cases hsp
  | @trailing i hend hstart =>
    have hi := TokenStream.lt_of_kindIn hend
    obtain ⟨token, htoken⟩ := TokenStream.exists_get? (Nat.lt_trans hstart hi)
    refine hfound hi ?_ (Carries.clear hstart)
    have hi₀ : i ≠ 0 := by omega
    have hne : Layout.blanksStart s i ≠ i := by omega
    simp [Rule.check, Layout.trailingSpace, hend, hi₀, hne, htoken]
  | @onlyBlank i hi hend hnone =>
    obtain ⟨token, htoken, hkind⟩ := TokenStream.kindIn_iff.1 hend
    refine hfound (TokenStream.lt_of_kindIn hend) ?_ (Carries.clear hi)
    have hi₀ : i ≠ 0 := by omega
    simp [Rule.check, Layout.blankEof, htoken, List.mem_singleton.1 hkind, hi₀, hnone]
  | @lineEnd i last hend hlast hbad =>
    obtain ⟨token, htoken, hkind⟩ := TokenStream.kindIn_iff.1 hend
    have hi := TokenStream.lt_of_kindIn hend
    refine hfound hi ?_ (Layout.carries_endLine s lineBreak (last + 1) i)
    have hi₀ : i ≠ 0 := by
      have := ((TokenStream.previousOutside_eq_some_iff (Nat.le_of_lt hi)).1 hlast).1
      omega
    simp [Rule.check, Layout.blankEof, htoken, List.mem_singleton.1 hkind, hi₀, hlast, hbad]
  | @tabs i width token hget hkind hindent =>
    refine hfound (TokenStream.get?_lt hget) ?_ Carries.replace
    simp [Rule.check, Layout.indent, hget, hindent, hkind]
  | onPaths _ ih => exact ih

theorem Spacing.gap?_row (hi : i < s.size) (h : gap? s i side = some g) :
    ∀ j, g.start ≤ j → j < g.stop → s.kindIn j gapKinds = true := by
  intro j hle hlt
  cases side with
  | before =>
    obtain ⟨k, hk, rfl⟩ := Option.map_eq_some_iff.1 h
    exact ((TokenStream.previousOutside_eq_some_iff (Nat.le_of_lt hi)).1 hk).2.2 j hle hlt
  | after =>
    obtain ⟨k, hk, rfl⟩ := Option.map_eq_some_iff.1 h
    exact (TokenStream.nextOutside_eq_some_iff.1 hk).2.2 j hle hlt

theorem Layout.blanksStart_row (hi : i ≤ s.size) :
    ∀ j, blanksStart s i ≤ j → j < i → s.kindIn j blanks = true := by
  intro j hle hlt
  unfold blanksStart at hle
  split at hle
  · rename_i hnone
    exact TokenStream.previousOutside_eq_none hi hnone j hlt
  · rename_i k hk
    exact ((TokenStream.previousOutside_eq_some_iff hi).1 hk).2.2 j hle hlt

theorem Spacing.acceptsLineBreak_of_builtIn (h : r.spacing? = some sp) :
    sp.acceptsLineBreak = true := by
  cases r <;> cases h <;> rfl

theorem Spacing.Gap.has_of_kindIn {g : Spacing.Gap} {kind : TokenKind} (hstart : g.start ≤ i)
    (hstop : i < g.stop) (h : s.kindIn i [kind] = true) : g.has s kind = true := by
  obtain ⟨t, ht, hkind⟩ := TokenStream.kindIn_iff.1 h
  have hget : (s.tokens.extract g.start g.stop)[i - g.start]? = some t := by
    rw [Array.getElem?_extract, if_pos (by have := TokenStream.get?_lt ht; unfold TokenStream.size at this; omega)]
    rw [Nat.add_sub_cancel' hstart]
    exact ht
  exact List.any_eq_true.2 ⟨t, Array.mem_toList_iff.2 (Array.mem_of_getElem? hget), by simpa using hkind⟩

theorem Spacing.blanks_of_gap {wanted : Nat} (hsp : r.spacing? = some sp) (hi : i < s.size)
    (hgap : gap? s i side = some g) (hbad : sp.accepts s g wanted = false) :
    ∀ j, g.start ≤ j → j < g.stop → s.kindIn j Layout.blanks = true := by
  intro j hle hlt
  obtain ⟨t, ht, hkind⟩ := TokenStream.kindIn_iff.1 (gap?_row hi hgap j hle hlt)
  have hbreak : t.kind ≠ .lineBreak := by
    intro hbreak
    have hhas : g.has s .lineBreak = true :=
      Gap.has_of_kindIn hle hlt (TokenStream.kindIn_iff.2 ⟨t, ht, by simp [hbreak]⟩)
    rw [accepts, if_pos hhas, acceptsLineBreak_of_builtIn hsp] at hbad
    cases hbad
  refine TokenStream.kindIn_iff.2 ⟨t, ht, ?_⟩
  revert hkind hbreak
  cases t.kind <;> decide

/-! ### The layout that a change is about -/

/-- The changes that a rule without path limits proposes, with the rows of layout they are about. -/
inductive Proposes.Shape (s : TokenStream) (lineBreak : List Char) (r : Rule) : Change → Prop
  /-- The blanks of a gap get the width that a token wants. -/
  | gap {sp : Spacing} {i wanted : Nat} {side : Spacing.Side} {g : Spacing.Gap}
      (hsp : r.spacing? = some sp) (hi : i < s.size) (hwanted : sp.wanted? s i side = some wanted)
      (hgap : Spacing.gap? s i side = some g) (hlt : g.start < g.stop)
      (hrow : ∀ j, g.start ≤ j → j < g.stop → s.kindIn j Layout.blanks = true) :
    Shape s lineBreak r (.fill g.start g.stop (List.replicate wanted ' '))
  | before {sp : Spacing} {i wanted : Nat} (hsp : r.spacing? = some sp) (hi : i < s.size)
      (hwanted : sp.wanted? s i .before = some wanted) :
    Shape s lineBreak r (.prepend i (List.replicate wanted ' '))
  | after {sp : Spacing} {i wanted : Nat} (hsp : r.spacing? = some sp) (hi : i < s.size)
      (hwanted : sp.wanted? s i .after = some wanted) :
    Shape s lineBreak r (.append i (List.replicate wanted ' '))
  /-- The blanks at the end of a line are dropped. -/
  | trailing {i : Nat} (hr : r = .trailingSpace) (hend : s.kindIn i Layout.lineEnds = true)
      (hlt : Layout.blanksStart s i < i)
      (hrow : ∀ j, Layout.blanksStart s i ≤ j → j < i → s.kindIn j Layout.blanks = true) :
    Shape s lineBreak r (.fill (Layout.blanksStart s i) i [])
  /-- The blank lines at the end of the file become a line break, or nothing. -/
  | blankLines {start i : Nat} {text : List Char} (hend : s.kindIn i [.eof] = true)
      (hlt : start < i) (hrow : ∀ j, start ≤ j → j < i → s.kindIn j Layout.blankLines = true)
      (htext : text = [] ∨ text = lineBreak) : Shape s lineBreak r (.fill start i text)
  | lineEnd {last : Nat} (hend : s.kindIn (last + 1) [.eof] = true) :
    Shape s lineBreak r (.append last lineBreak)
  /-- Tabs in the indentation become spaces. -/
  | tabs {i width : Nat} {token : Token} (hr : r = .indent width) (hget : s.get? i = some token)
      (hindent : Layout.inIndentation s i = true)
      (hrow : ∀ j, i ≤ j → j < i + 1 → s.kindIn j Layout.blanks = true) :
    Shape s lineBreak r (.fill i (i + 1) (List.replicate (width * token.value.length) ' '))

theorem Proposes.shape (h : Proposes s lineBreak r ch) : Shape s lineBreak r.base ch := by
  induction h with
  | @gap r sp i wanted side g hsp hi hwanted hgap hbad =>
    have hbase : r.base.spacing? = some sp := by cases r <;> first | exact hsp | cases hsp
    unfold Spacing.Gap.change
    split
    · exact .gap hbase hi hwanted hgap (by assumption) (Spacing.blanks_of_gap hsp hi hgap hbad)
    · cases side with
      | before => exact .before hbase hi hwanted
      | after => exact .after hbase hi hwanted
  | trailing hend hstart =>
    exact .trailing rfl hend hstart
      (Layout.blanksStart_row (Nat.le_of_lt (TokenStream.lt_of_kindIn hend)))
  | onlyBlank hi hend hnone =>
    have hsize := Nat.le_of_lt (TokenStream.lt_of_kindIn hend)
    exact .blankLines hend hi
      (fun j _ hj => TokenStream.previousOutside_eq_none hsize hnone j hj) (.inl rfl)
  | @lineEnd i last hend hlast _ =>
    have hsize := Nat.le_of_lt (TokenStream.lt_of_kindIn hend)
    obtain ⟨hlt, -, hrow⟩ := (TokenStream.previousOutside_eq_some_iff hsize).1 hlast
    unfold Layout.endChange
    split
    · exact .blankLines hend (by assumption) hrow (.inr rfl)
    · obtain rfl : i = last + 1 := by omega
      exact .lineEnd hend
  | @tabs i width token hget hkind hindent =>
    refine .tabs rfl hget hindent fun j hle hlt => ?_
    obtain rfl : j = i := by omega
    rw [TokenStream.kindIn_of_get? hget]
    rcases hkind with hkind | hkind <;> rw [hkind] <;> rfl
  | onPaths _ ih => exact ih

theorem Proposes.within (h : Proposes s lineBreak r ch) : ch.Within s := by
  have hfill : ∀ {start stop : Nat} {text : List Char} {kinds : List TokenKind}, start < stop →
      (∀ j, start ≤ j → j < stop → s.kindIn j kinds = true) →
      (Change.fill start stop text).Within s := by
    intro start stop text kinds hlt hrow
    have := TokenStream.lt_of_kindIn (hrow (stop - 1) (by omega) (by omega))
    exact ⟨hlt, by omega⟩
  cases h.shape with
  | gap _ _ _ _ hlt hrow => exact hfill hlt hrow
  | before _ hi | after _ hi => exact hi
  | trailing _ _ hlt hrow => exact hfill hlt hrow
  | blankLines _ hlt hrow => exact hfill hlt hrow
  | lineEnd hend => exact Nat.lt_of_succ_lt (TokenStream.lt_of_kindIn hend)
  | tabs _ _ _ hrow => exact hfill (Nat.lt_succ_self _) hrow

end Findings

/-! ### Passes -/

/-- The repairs of the findings of a rule that are not silenced. -/
def Rule.repairs (r : Rule) (t : Template) : List (List Command) :=
  ((r.findings t.stream).filter fun f => !f.isSilenced t.directives r.name).map
    fun f => f.repair.getD []

/-- The repairs of a pass, rule by rule. -/
def Ruleset.repairs (rs : Ruleset) (file : SourceFile) (t : Template) : List (List Command) :=
  (rs.fixable.filter (·.appliesTo file)).flatMap (·.repairs t)

/-- Carry out repairs one after the other. -/
def EditBuffer.mendAll (b : EditBuffer) (repairs : List (List Command)) : EditBuffer :=
  repairs.foldl (fun b cmds => (b.runAll cmds).2) b

theorem EditBuffer.mendAll_cons (b : EditBuffer) (cmds : List Command)
    (repairs : List (List Command)) :
    b.mendAll (cmds :: repairs) = (b.runAll cmds).2.mendAll repairs := rfl

theorem EditBuffer.mendAll_append (b : EditBuffer) (rs ts : List (List Command)) :
    b.mendAll (rs ++ ts) = (b.mendAll rs).mendAll ts := List.foldl_append

namespace Fixer

variable {rs : Ruleset} {file : SourceFile} {t : Template} {fx : Fixer} {r : Rule}

theorem fixFindings_of_isBuiltIn (h : r.isBuiltIn = true) (call : Nat) (s : TokenStream) :
    r.fixFindings call s = r.findings s := by
  have hscript : r.script? = none := by
    induction r with
    | script => cases h
    | onPaths inner globs ih => exact ih h
    | _ => rfl
  rw [Rule.fixFindings, hscript]

theorem applyRule_buffer (hbuiltIn : r.isBuiltIn = true) (happlies : r.appliesTo file = true) :
    (applyRule file t fx r).buffer = fx.buffer.mendAll (r.repairs t) := by
  have hfold : ∀ (call : Nat) (found : List Finding) (fx : Fixer),
      (found.foldl (mend t.directives t.stream r.name call) fx).buffer =
        fx.buffer.mendAll ((found.filter fun f => !f.isSilenced t.directives r.name).map
          fun f => f.repair.getD []) := by
    intro call found
    induction found with
    | nil => exact fun _ => rfl
    | cons f found ih =>
      intro fx
      rw [List.foldl_cons, ih]
      cases hsilenced : f.isSilenced t.directives r.name <;>
        simp [mend, hsilenced, EditBuffer.mendAll]
  simp only [applyRule, if_pos happlies, fixFindings_of_isBuiltIn hbuiltIn, hfold]
  rfl

/-- A pass carries out its repairs on the values of the tokens. -/
theorem pass_buffer (hrs : ∀ r ∈ rs.rules, r.isBuiltIn = true) :
    (fx.pass rs file t).buffer =
      ((fx.buffer.load t.stream.values).mendAll (rs.repairs file t)).endPass := by
  have hfold : ∀ (rules : List Rule) (fx : Fixer), (∀ r ∈ rules, r.isBuiltIn = true) →
      (rules.foldl (applyRule file t) fx).buffer =
        fx.buffer.mendAll ((rules.filter (·.appliesTo file)).flatMap (·.repairs t)) := by
    intro rules
    induction rules with
    | nil => exact fun fx _ => rfl
    | cons r rules ih =>
      intro fx hrules
      rw [List.foldl_cons, ih _ fun r' hr' => hrules r' (List.mem_cons_of_mem r hr')]
      cases happlies : r.appliesTo file
      · simp [applyRule, happlies]
      · rw [applyRule_buffer (hrules r List.mem_cons_self) happlies,
          List.filter_cons_of_pos happlies, List.flatMap_cons, EditBuffer.mendAll_append]
  have hfixable : ∀ r ∈ rs.fixable, r.isBuiltIn = true :=
    fun r hr => hrs r (List.mem_filter.1 hr).1
  simp only [pass, hfold _ _ hfixable, Ruleset.repairs]

theorem exists_of_mem_repairs (hrs : ∀ r ∈ rs.rules, r.isBuiltIn = true) {cmds : List Command}
    (h : cmds ∈ rs.repairs file t) (lineBreak : List Char) :
    ∃ r ∈ rs.rules, r.appliesTo file = true ∧ ∃ ch, Proposes t.stream lineBreak r ch ∧
      Carries t.stream lineBreak cmds ch := by
  obtain ⟨r, hr, hcmds⟩ := List.mem_flatMap.1 h
  obtain ⟨hr, happlies⟩ := List.mem_filter.1 hr
  obtain ⟨hr, hfixable⟩ := List.mem_filter.1 hr
  obtain ⟨f, hf, rfl⟩ := List.mem_map.1 hcmds
  exact ⟨r, hr, happlies, exists_proposes (hrs r hr) hfixable (List.mem_filter.1 hf).1⟩

end Fixer

end TwigStyle
