import TwigStyle.Proofs.Demands
import TwigStyle.Proofs.Parted

/-!
# What a pass makes of a single token

A token with content gets spaces next to it, and blanks become other blanks or nothing; line breaks are
only touched at the end of the file (`Padded`).  So up to the last token with content, every token keeps
its line breaks and all else but spaces and tabs (`Padded.lines`).

That blanks become nothing has one of two reasons: they are trimmed (`Rule.trims`), or they stand next to
a token that wants no space there (`Proposes.firm_of_empty`).  Such a token starts with no line feed and
ends with no carriage return (`Lexeme.Firm`), hence no line break is joined in the second case.
-/

namespace TwigStyle

/-! ### Tokens that want spaces -/

/-- A lexeme that wants spaces on a side starts with no line feed and ends with no carriage return. -/
def Lexeme.Firm (l : Lexeme) : Prop :=
  (Spacing.Side.kinds .before ++ Spacing.Side.kinds .after).contains l.1 = true →
    l.2.head? ≠ some '\n' ∧ l.2.getLast? ≠ some '\r'

theorem Lexeme.firm_of_kind {k : TokenKind} {v : List Char}
    (hk : (Spacing.Side.kinds .before ++ Spacing.Side.kinds .after).contains k = false) :
    Firm (k, v) := by
  intro h
  rw [hk] at h
  cases h

namespace Lexer

variable {s : Lexer} {table : OperatorTable} {frame : Frame} {outer : List Frame} {c : Char}
  {t rest : List Char} {lexed : Lexed}

theorem Reading.firm (h : Reading s table frame outer c t lexed) :
    Lexeme.Firm (lexed.kind, c :: t.take lexed.more) := by
  have hhead : Text.isLayout c = false → ∀ u, (c :: u).head? ≠ some '\n' := by
    intro hc u hhead
    cases hhead
    cases hc
  cases h with
  | layout hc =>
    refine Lexeme.firm_of_kind ?_
    cases (Lexeme.layoutAt c t).1 <;> rfl
  | spread | arrow | number | string | quote => exact Lexeme.firm_of_kind rfl
  | name _ _ _ =>
    refine Lexeme.firm_of_kind ?_
    rcases nameLexed_kind frame outer c t with hkind | hkind <;> rw [hkind] <;> rfl
  | operator hplain h => exact fun _ => ⟨hhead hplain.solid _, operator?_last hplain.solid h⟩
  | punctuation hplain _ _ _ h =>
    rw [(punctuation?_ok h).2]
    refine fun _ => ⟨hhead hplain.solid _, ?_⟩
    intro hlast
    cases hlast
    cases hplain.solid

theorem Inside.firm (h : Inside s table frame outer c t lexed) :
    Lexeme.Firm (lexed.kind, c :: t.take lexed.more) := by
  cases h with
  | endQuote | interpolate | literal => exact Lexeme.firm_of_kind rfl
  | close hend =>
    have hends : ∀ v ∈ Frame.allEnds, v.head? ≠ some '\n' ∧ v.getLast? ≠ some '\r' := by decide
    exact fun _ => hends _ (Frame.mem_allEnds hend)
  | read _ _ h => exact h.firm

theorem Data.firm {verbatim verbatim' : Bool} {new : List Lexeme} {frames : List Frame}
    (h : Data verbatim t new frames verbatim' rest) : ∀ l ∈ new, l.Firm := by
  refine h.forall ?_ ?_ fun _ => Lexeme.firm_of_kind rfl
  · rintro u ⟨cls, v⟩ -
    cases cls <;> exact ⟨Lexeme.firm_of_kind rfl, Lexeme.firm_of_kind rfl⟩
  · intro before value after k hfind kind _ _
    have hsolid := Delimiter.isLayout_of_mem_at? (Delimiter.find_found hfind).1
    refine ⟨?_, getLast?_ne_of_forall hsolid (by decide)⟩
    intro hhead
    exact absurd (hsolid _ (List.mem_of_mem_head? hhead)) (by decide)

end Lexer

theorem tokenize_firm {table : OperatorTable} {source : List Char} {t : Template}
    (h : tokenize table source = .ok t) : ∀ l ∈ t.stream.lexemes, l.Firm :=
  tokenize_forall Lexer.Data.firm Lexer.Inside.firm (Lexeme.firm_of_kind rfl) h

/-! ### What becomes of a token -/

/-- Can the rule remove all blanks between two line breaks? -/
def Rule.trims : Rule → Bool
  | trailingSpace => true
  | indent width => width == 0
  | onPaths inner _ => inner.trims
  | _ => false

theorem Rule.trims_base (r : Rule) : r.base.trims = r.trims := by
  induction r with
  | onPaths _ _ ih => exact ih
  | _ => rfl

/-- What a change may make of the value `v` of a token: spaces come next to it or replace blanks, and
    line breaks are only changed at the end of the file. -/
inductive Padded (s : TokenStream) (i : Nat) (v : List Char) : List Char → Prop
  | blank (hkind : s.kindIn i Layout.blanks = true) (n : Nat) : Padded s i v (List.replicate n ' ')
  | before (n : Nat) : Padded s i v (List.replicate n ' ' ++ v)
  | after (n : Nat) : Padded s i v (v ++ List.replicate n ' ')
  | ending {w : List Char}
      (htail : ∀ m, i < m → m + 1 < s.size → s.kindIn m TokenKind.layout = true)
      (hw : s.kindIn i TokenKind.layout = true ∨ ∃ text, w = v ++ text) : Padded s i v w

section Changes

variable {s : TokenStream} {lineBreak w v : List Char} {r : Rule} {ch : Change}
  {e : Nat × List Char} {t : Token} {i m : Nat}

theorem Proposes.padded (hended : s.Ended) (h : Proposes s lineBreak r ch) (he : e ∈ ch.edits s)
    (ht : s.get? e.1 = some t) : Padded s e.1 t.value e.2 := by
  -- A row of blanks that is filled with spaces.
  have hfill : ∀ {start stop n : Nat}, start < stop →
      (∀ j, start ≤ j → j < stop → s.kindIn j Layout.blanks = true) →
      e ∈ (Change.fill start stop (List.replicate n ' ')).edits s → Padded s e.1 t.value e.2 := by
    intro start stop n hlt hrow he
    obtain ⟨hle, hlt', hvalue, -⟩ := Change.of_mem_fill he hlt
    rcases hvalue with hvalue | hvalue <;> rw [hvalue]
    · exact .blank (hrow _ hle hlt') n
    · exact .blank (hrow _ hle hlt') 0
  cases h.shape with
  | gap _ _ _ _ hlt hrow => exact hfill hlt hrow he
  | before =>
    rw [List.mem_singleton.1 he] at ht ⊢
    rw [value_of_get? ht]
    exact .before _
  | after =>
    rw [List.mem_singleton.1 he] at ht ⊢
    rw [value_of_get? ht]
    exact .after _
  | trailing _ _ hlt hrow => exact hfill (n := 0) hlt hrow he
  | @blankLines start stop text heof hlt hrow =>
    obtain ⟨hle, hlt', -⟩ := Change.of_mem_fill he hlt
    have hlayout : ∀ j, start ≤ j → j < stop → s.kindIn j TokenKind.layout = true :=
      fun j hj hj' => TokenStream.kindIn_mono (by decide) (hrow j hj hj')
    refine .ending ?_ (.inl (hlayout _ hle hlt'))
    intro m hm hsize
    have := (hended stop).1 heof
    exact hlayout m (by omega) (by omega)
  | @lineEnd last heof =>
    have heq := (hended (last + 1)).1 heof
    rw [List.mem_singleton.1 he] at ht ⊢
    refine .ending ?_ (.inr ⟨lineBreak, by rw [value_of_get? ht]⟩)
    intro m hm hm'
    simp only at hm
    omega
  | tabs _ _ _ hrow => exact hfill (Nat.lt_succ_self _) hrow he

theorem TokenStream.Genuine.blank (hs : s.Genuine) (ht : s.get? i = some t)
    (hkind : s.kindIn i Layout.blanks = true) : ∀ c ∈ t.value, isSpacing c = true := by
  have hkinds : ∀ kind ∈ Layout.blanks, kind ∈ TokenKind.layout ∧ kind ∉ TokenKind.breaks := by decide
  obtain ⟨hlayout, hbreak⟩ := hkinds _ (get?_of_kindIn ht hkind)
  intro c hc
  rcases (hs _ (lexeme_mem ht)).cases hlayout with ⟨-, hrun⟩ | ⟨-, hrun⟩ | ⟨hin, -⟩
  · rw [hrun c hc]
    rfl
  · rw [hrun c hc]
    rfl
  · exact absurd hin hbreak

theorem isSpacing_of_mem_replicate {n : Nat} : ∀ c ∈ List.replicate n ' ', isSpacing c = true := by
  intro c hc
  rw [(List.mem_replicate.1 hc).2]
  rfl

/-- Before the last token with content, only spaces and tabs come and go. -/
theorem Padded.lines (hs : s.Genuine) (ht : s.get? i = some t) (h : Padded s i t.value w)
    (him : i < m) (hsize : m + 1 < s.size) (hm : s.kindIn m TokenKind.layout = false) :
    unspaced w = unspaced t.value ∧ lineBreakCount w = lineBreakCount t.value := by
  cases h with
  | blank hkind n =>
    have hblank := hs.blank ht hkind
    rw [unspaced_of_blank hblank, unspaced_of_blank isSpacing_of_mem_replicate,
      lineBreakCount_of_blank hblank, lineBreakCount_of_blank isSpacing_of_mem_replicate]
    exact ⟨rfl, rfl⟩
  | before n =>
    have hlast : (List.replicate n ' ').getLast? ≠ some '\r' :=
      getLast?_ne_of_forall (p := (isSpacing · = true)) isSpacing_of_mem_replicate (by decide)
    rw [unspaced_append, unspaced_of_blank isSpacing_of_mem_replicate,
      lineBreakCount_append (fun h => absurd h hlast),
      lineBreakCount_of_blank isSpacing_of_mem_replicate, Nat.zero_add]
    exact ⟨rfl, rfl⟩
  | after n =>
    have hhead : (List.replicate n ' ').head? ≠ some '\n' := by
      intro hhead
      exact absurd (isSpacing_of_mem_replicate _ (List.mem_of_mem_head? hhead)) (by decide)
    rw [unspaced_append, unspaced_of_blank isSpacing_of_mem_replicate, List.append_nil,
      lineBreakCount_append (fun _ => hhead), lineBreakCount_of_blank isSpacing_of_mem_replicate]
    exact ⟨rfl, rfl⟩
  | ending htail _ =>
    rw [htail m him hsize] at hm
    cases hm

theorem Padded.around (h : Padded s i v w) (hi : s.kindIn i TokenKind.layout = false) :
    ∃ n text, w = List.replicate n ' ' ++ v ++ text := by
  cases h with
  | blank hkind n =>
    rw [TokenStream.kindIn_mono (by decide) hkind] at hi
    cases hi
  | before n => exact ⟨n, [], (List.append_nil _).symm⟩
  | after n => exact ⟨0, List.replicate n ' ', rfl⟩
  | ending _ hw =>
    rcases hw with hw | ⟨text, rfl⟩
    · rw [hw] at hi
      cases hi
    · exact ⟨0, text, rfl⟩

theorem Padded.getLast? (h : Padded s i v w) (him : i < m) (hsize : m + 1 < s.size)
    (hm : s.kindIn m TokenKind.layout = false) (hlast : w.getLast? = some '\r') :
    v.getLast? = some '\r' := by
  have hspaces : ∀ {n : Nat}, (List.replicate n ' ').getLast? ≠ some '\r' :=
    getLast?_ne_of_forall (p := (isSpacing · = true)) isSpacing_of_mem_replicate (by decide)
  cases h with
  | blank _ n => exact absurd hlast hspaces
  | before n =>
    rw [List.getLast?_append] at hlast
    cases hv : v.getLast? with
    | none =>
      rw [hv] at hlast
      exact absurd hlast hspaces
    | some d =>
      rw [hv] at hlast
      exact hlast
  | after n =>
    cases n with
    | zero => simpa using hlast
    | succ n =>
      rw [List.replicate_succ', ← List.append_assoc, List.getLast?_concat] at hlast
      cases hlast
  | ending htail _ =>
    rw [htail m him hsize] at hm
    cases hm

theorem Padded.head? (h : Padded s i v w) (him : i ≤ m) (hsize : m + 1 < s.size)
    (hm : s.kindIn m TokenKind.layout = false) (hv : v ≠ []) (hhead : w.head? = some '\n') :
    v.head? = some '\n' := by
  have happend : ∀ {text : List Char}, (v ++ text).head? = some '\n' → v.head? = some '\n' := by
    intro text hhead
    obtain ⟨d, u, rfl⟩ := List.exists_cons_of_ne_nil hv
    exact hhead
  cases h with
  | blank _ n => cases n <;> cases hhead
  | before n =>
    cases n with
    | zero => exact hhead
    | succ n => cases hhead
  | after n => exact happend hhead
  | ending htail hw =>
    rcases hw with hw | ⟨text, rfl⟩
    · have hne : i ≠ m := by
        rintro rfl
        rw [hw] at hm
        cases hm
      rw [htail m (by omega) hsize] at hm
      cases hm
    · exact happend hhead

/-- Blanks that disappear without being trimmed stand next to a token that wants them to. -/
theorem Proposes.firm_of_empty (hs : s.Regular) (hfirm : ∀ l ∈ s.lexemes, l.Firm)
    (h : Proposes s lineBreak r ch) (htrims : r.trims = false) (he : e ∈ ch.edits s)
    (hempty : e.2 = []) (ht : s.get? e.1 = some t) (hvalue : t.value ≠ []) (hem : e.1 < m)
    (hsize : m + 1 < s.size) (hm : s.kindIn m TokenKind.layout = false) :
    ∃ k l x y, s.Neighbours k l x y ∧ k < e.1 ∧ e.1 < l ∧
      (∀ j, k < j → j < l → s.kindIn j Layout.blanks = true) ∧
      (x.value.getLast? ≠ some '\r' ∨ y.value.head? ≠ some '\n') := by
  -- Only the gaps are left: what does not trim, and is not at the end of the file, empties nothing else.
  cases h.shape with
  | @gap sp i wanted side g hsp hi hwanted hgap hgt hblanks =>
    obtain ⟨hle, hlt, -⟩ := Change.of_mem_fill he hgt
    obtain ⟨u, hu⟩ := TokenStream.exists_get? hi
    have hkind := Spacing.kind_of_wanted hsp hu hwanted
    have hmem := TokenStream.lexeme_mem hu
    obtain ⟨k, l, x, y, hn, rfl, rfl⟩ := hs.exists_neighbours hu hkind hgap
    refine ⟨k, l, x, y, hn, hle, hlt, hblanks, ?_⟩
    cases side with
    | before =>
      obtain rfl : y = u := Option.some.inj (hn.right.symm.trans hu)
      exact .inr (hfirm _ hmem (List.contains_iff_mem.2 (List.mem_append_left _ hkind))).1
    | after =>
      obtain rfl : x = u := Option.some.inj (hn.left.symm.trans hu)
      exact .inl (hfirm _ hmem (List.contains_iff_mem.2 (List.mem_append_right _ hkind))).2
  | before | after | lineEnd =>
    rw [List.mem_singleton.1 he] at ht hempty
    rw [value_of_get? ht] at hempty
    simp [hvalue] at hempty
  | trailing hr =>
    rw [← Rule.trims_base, hr] at htrims
    cases htrims
  | @blankLines start i text heof hlt hrow =>
    have := (hs.ended i).1 heof
    obtain ⟨hle, -⟩ := Change.of_mem_fill he hlt
    rw [TokenStream.kindIn_mono (by decide) (hrow m (by omega) (by omega))] at hm
    cases hm
  | @tabs i width token hr hget =>
    obtain ⟨hle, hlt, -, htext⟩ := Change.of_mem_fill he (Nat.lt_succ_self i)
    obtain rfl : e.1 = i := by omega
    obtain rfl : token = t := Option.some.inj (hget.symm.trans ht)
    rw [htext rfl, List.replicate_eq_nil_iff, Nat.mul_eq_zero, List.length_eq_zero_iff] at hempty
    rcases hempty with rfl | hnil
    · rw [← Rule.trims_base, hr] at htrims
      cases htrims
    · exact absurd hnil hvalue

end Changes

end TwigStyle
