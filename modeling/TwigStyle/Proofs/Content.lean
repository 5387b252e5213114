import TwigStyle.Proofs.Clean
import TwigStyle.Proofs.Gaps

/-!
# Fixing keeps the content

The content of a text is what is left of it without its layout.  Every change that a rule proposes
puts layout in the place of layout, or next to a token (`Proposes.keepsContent`), so no value of the
buffer ever has another content than the token it stands for.  That is an invariant of a single
attempt, whether it is recorded, refused or a conflict; a pass and a whole file follow by induction.
-/

namespace TwigStyle

/-- A text without its layout. -/
def content (t : List Char) : List Char := t.filter (!Text.isLayout ·)

@[simp] theorem content_append (t u : List Char) : content (t ++ u) = content t ++ content u :=
  List.filter_append ..

theorem content_flatten (ts : List (List Char)) :
    content ts.flatten = (ts.map content).flatten := List.filter_flatten

theorem content_of_gap {g : List Char} (hg : IsGap g) : content g = [] := by
  refine List.filter_eq_nil_iff.2 fun c hc => ?_
  simp [hg c hc]

theorem isGap_replicate (n : Nat) : IsGap (List.replicate n ' ') := by
  intro c hc
  rw [(List.mem_replicate.1 hc).2]
  rfl

/-! ### Rows of layout tokens -/

namespace TokenStream

variable {s : TokenStream} {kinds : List TokenKind} {i : Nat}

/-- Tokens of layout kinds hold layout. -/
def Genuine (s : TokenStream) : Prop := ∀ l ∈ s.lexemes, l.Genuine

theorem Genuine.gap (h : s.Genuine) (hkinds : kinds ⊆ TokenKind.layout)
    (hi : s.kindIn i kinds = true) : IsGap (s.values[i]?.getD []) := by
  obtain ⟨t, ht, hkind⟩ := kindIn_iff.1 hi
  have hget : s.tokens[i]? = some t := ht
  have hmem : t.lexeme ∈ s.lexemes :=
    List.mem_map_of_mem (Array.mem_toList_iff.2 (Array.mem_of_getElem? hget))
  have hvalue : s.values[i]?.getD [] = t.value := by simp [values, hget]
  rw [hvalue]
  exact (h _ hmem).gap (List.contains_iff_mem.2 (hkinds hkind))

end TokenStream

/-! ### Changes -/

/-- Every value that the change gives to a token has the content of the token. -/
def Change.KeepsContent (s : TokenStream) (ch : Change) : Prop :=
  ∀ e ∈ ch.edits s, content e.2 = content (s.values[e.1]?.getD [])

section Changes

variable {s : TokenStream} {kinds : List TokenKind} {i start stop : Nat} {text : List Char}

theorem Change.keepsContent_fill (hs : s.Genuine) (hkinds : kinds ⊆ TokenKind.layout)
    (hlt : start < stop) (hrow : ∀ j, start ≤ j → j < stop → s.kindIn j kinds = true)
    (htext : IsGap text) : (Change.fill start stop text).KeepsContent s := by
  have hempty : ∀ {j : Nat} {g : List Char}, IsGap g → start ≤ j → j < stop →
      content g = content (s.values[j]?.getD []) := by
    intro j g hg hle hj
    rw [content_of_gap hg, content_of_gap (hs.gap hkinds (hrow j hle hj))]
  intro e he
  simp only [edits, List.mem_cons, List.mem_map, List.mem_range'_1] at he
  rcases he with rfl | ⟨j, hj, rfl⟩
  · exact hempty htext (Nat.le_refl start) hlt
  · exact hempty isGap_nil (by omega) (by omega)

theorem Change.keepsContent_append (htext : IsGap text) :
    (Change.append i text).KeepsContent s := by
  intro e he
  rw [List.mem_singleton.1 he, content_append, content_of_gap htext, List.append_nil]

theorem Change.keepsContent_prepend (htext : IsGap text) :
    (Change.prepend i text).KeepsContent s := by
  intro e he
  rw [List.mem_singleton.1 he, content_append, content_of_gap htext, List.nil_append]

/-- What rules propose keeps the content of every token. -/
theorem Proposes.keepsContent {lineBreak : List Char} {r : Rule} {ch : Change} (hs : s.Genuine)
    (hbreak : IsGap lineBreak) (h : Proposes s lineBreak r ch) : ch.KeepsContent s := by
  cases h.shape with
  | gap _ _ _ _ hlt hrow =>
    exact Change.keepsContent_fill hs (by decide) hlt hrow (isGap_replicate _)
  | before => exact Change.keepsContent_prepend (isGap_replicate _)
  | after => exact Change.keepsContent_append (isGap_replicate _)
  | trailing _ _ hlt hrow => exact Change.keepsContent_fill hs (by decide) hlt hrow isGap_nil
  | blankLines _ hlt hrow htext =>
    refine Change.keepsContent_fill hs (by decide) hlt hrow ?_
    rcases htext with rfl | rfl
    · exact isGap_nil
    · exact hbreak
  | lineEnd => exact Change.keepsContent_append hbreak
  | tabs _ _ _ hrow =>
    exact Change.keepsContent_fill hs (by decide) (Nat.lt_succ_self _) hrow (isGap_replicate _)

end Changes

/-! ### Buffers -/

namespace EditBuffer

variable {b : EditBuffer} {s : TokenStream} {edits : List (Nat × List Char)}
  {repairs : List (List Command)}

/-- Every value has the content of its token. -/
def SameContent (b : EditBuffer) (s : TokenStream) : Prop :=
  b.values.map content = s.values.map content

theorem SameContent.record (h : b.SameContent s) {i : Nat} {text : List Char}
    (htext : content text = content (s.values[i]?.getD [])) : (b.record i text).SameContent s := by
  have hset : (b.values.setIfInBounds i text).map content =
      (s.values.map content).setIfInBounds i (content text) := by
    rw [← h, Array.map_setIfInBounds]
  refine hset.trans (Array.ext_getElem? fun j => ?_)
  rw [Array.getElem?_setIfInBounds]
  split
  · rename_i hij
    subst hij
    by_cases hlt : i < s.values.size
    · simp [htext, hlt]
    · simp [hlt]
  · rfl

theorem SameContent.recordAll (h : b.SameContent s)
    (hedits : ∀ e ∈ edits, content e.2 = content (s.values[e.1]?.getD [])) :
    (b.recordAll edits).SameContent s :=
  recordAll_keeps (P := (·.SameContent s)) h fun _ h e he => h.record (hedits e he)

theorem SameContent.attempt (h : b.SameContent s) (hnodup : (edits.map Prod.fst).Nodup)
    (hedits : ∀ e ∈ edits, content e.2 = content (s.values[e.1]?.getD [])) :
    (b.attempt edits).SameContent s :=
  attempt_keeps (P := (·.SameContent s)) hnodup h (fun _ _ => h.recordAll hedits) h

theorem SameContent.mendAll (h : b.SameContent s) (hb : b.Holds s)
    (hrepairs : ∀ cmds ∈ repairs, ∃ ch, Carries s b.lineBreak cmds ch ∧ ch.KeepsContent s) :
    (b.mendAll repairs).SameContent s ∧ (b.mendAll repairs).lineBreak = b.lineBreak := by
  obtain ⟨hsame, -, hbreak⟩ := hb.mendAll (I := (·.SameContent s)) hrepairs h
    fun _ ch _ hkeeps h' => h'.attempt (ch.nodup_edits s) hkeeps
  exact ⟨hsame, hbreak⟩

theorem SameContent.text (h : b.SameContent s) : content b.text = content s.source := by
  have hlist := congrArg Array.toList h
  simp only [Array.toList_map, TokenStream.values] at hlist
  rw [EditBuffer.text, TokenStream.source, content_flatten, content_flatten, hlist]

end EditBuffer

/-! ### Passes -/

namespace Fixer

variable {rs : Ruleset} {file : SourceFile} {t : Template} {fx fx' : Fixer} {out source : List Char}

theorem content_pass (hrs : ∀ r ∈ rs.rules, r.isBuiltIn = true) (file : SourceFile)
    (ht : tokenize fx.table source = .ok t) (hbreak : IsGap fx.buffer.lineBreak) :
    content ({ fx with buffer := fx.buffer.startPass }.pass rs file t).buffer.text =
        content source ∧
      ({ fx with buffer := fx.buffer.startPass }.pass rs file t).buffer.lineBreak =
        fx.buffer.lineBreak := by
  have hholds : (fx.buffer.startPass.load t.stream.values).Holds t.stream :=
    EditBuffer.holds_load rfl t.stream
  have hstart : (fx.buffer.startPass.load t.stream.values).SameContent t.stream := rfl
  have hrepairs : ∀ cmds ∈ rs.repairs file t, ∃ ch,
      Carries t.stream fx.buffer.lineBreak cmds ch ∧ ch.KeepsContent t.stream := by
    intro cmds hcmds
    obtain ⟨r, -, -, ch, hch, hcarries⟩ := exists_of_mem_repairs hrs hcmds fx.buffer.lineBreak
    exact ⟨ch, hcarries, hch.keepsContent (tokenize_gaps ht) hbreak⟩
  obtain ⟨hsame, hbreak'⟩ := hstart.mendAll hholds hrepairs
  obtain ⟨ls, hls, hspell, -⟩ := tokenize_lexemes ht
  have hsource : t.stream.source = source := by
    rw [TokenStream.source_eq, hls, spell_append, hspell]
    simp
  rw [pass_buffer hrs]
  refine ⟨?_, hbreak'⟩
  rw [← hsource]
  exact hsame.text

theorem content_passes (hrs : ∀ r ∈ rs.rules, r.isBuiltIn = true) {remaining : Nat}
    (hbreak : IsGap fx.buffer.lineBreak) (h : passes rs file remaining source fx = (.ok out, fx')) :
    content out = content source := by
  induction remaining generalizing source fx with
  | zero => cases h
  | succ remaining ih =>
    simp only [passes] at h
    split at h
    · cases h
    · rename_i t ht
      obtain ⟨hcontent, hbreak'⟩ := content_pass hrs { file with content := source } ht hbreak
      split at h
      · cases h
        rfl
      · split at h
        · exact ih (by rw [hbreak']; exact hbreak) h
        · rw [ih (by rw [hbreak']; exact hbreak) h, hcontent]

end Fixer

/-- **Fixing keeps the content.** Without spaces, tabs, carriage returns and line feeds, a fixed
    file is the file it was. -/
theorem fixFile_keeps_content {fx fx' : Fixer} {rs : Ruleset} {file : SourceFile} {out : List Char}
    (hrs : ∀ r ∈ rs.rules, r.isBuiltIn = true) (h : fx.fixFile rs file = (.ok out, fx')) :
    content out = content file.content :=
  Fixer.content_passes hrs (isGap_lineBreakOf file.content) h

/-- The default standard on code, a comment and trailing blanks. -/
theorem fixFile_keeps_content_call :
    (Fixer.fixFile ⟨OperatorTable.default, {}, [], #[]⟩ ⟨Standard.full.rules⟩ (.alone ⟨"a.twig"⟩
        "\x7b\x7bf( a ,[ 1])\x7d\x7d \n\x7b#\n\tb#\x7d\n\n".toList)).1.toOption =
      some "\x7b\x7b f(a, [1]) \x7d\x7d\n\x7b#\n    b#\x7d\n".toList ∧
    content "\x7b\x7b f(a, [1]) \x7d\x7d\n\x7b#\n    b#\x7d\n".toList =
      content "\x7b\x7bf( a ,[ 1])\x7d\x7d \n\x7b#\n\tb#\x7d\n\n".toList := by
  have hbuiltIn : ∀ r ∈ Standard.full.rules, r.isBuiltIn = true := by decide
  have hok : (Fixer.fixFile ⟨OperatorTable.default, {}, [], #[]⟩ ⟨Standard.full.rules⟩
      (.alone ⟨"a.twig"⟩
        "\x7b\x7bf( a ,[ 1])\x7d\x7d \n\x7b#\n\tb#\x7d\n\n".toList)).1.toOption =
        some "\x7b\x7b f(a, [1]) \x7d\x7d\n\x7b#\n    b#\x7d\n".toList := by decide +kernel
  exact ⟨hok, fixFile_keeps_content hbuiltIn (Prod.ext (eq_ok_of_toOption hok) rfl)⟩

end TwigStyle
