import TwigStyle.Proofs.Repairs
import TwigStyle.Proofs.Welds

/-!
# What spacings want

The spacing of a rule looks at a stream; what it wants around a token is said here of the lexeme of
the token and of those before it.
-/

namespace TwigStyle

variable {r : Rule}

namespace TokenStream

variable {s : TokenStream} {kinds : List TokenKind} {i : Nat} {t : Token}

theorem previousOutside_succ (h : s.get? i = some t) :
    s.previousOutside kinds (i + 1) =
      if kinds.contains t.kind then s.previousOutside kinds i else some i := by
  have hi := get?_lt h
  split
  · rename_i hin
    have hkind : s.kindIn i kinds = true := by rw [kindIn_of_get? h, hin]
    refine Option.ext fun j => ?_
    rw [previousOutside_eq_some_iff hi, previousOutside_eq_some_iff (Nat.le_of_lt hi)]
    constructor
    · rintro ⟨hlt, hj, hbetween⟩
      have hne : j ≠ i := by
        rintro rfl
        obtain ⟨t', ht', hout⟩ := hj
        rw [h] at ht'
        cases ht'
        exact hout (List.contains_iff_mem.1 hin)
      exact ⟨by omega, hj, fun k h₁ h₂ => hbetween k h₁ (by omega)⟩
    · rintro ⟨hlt, hj, hbetween⟩
      refine ⟨by omega, hj, ?_⟩
      intro k h₁ h₂
      rcases Nat.lt_succ_iff_lt_or_eq.1 h₂ with h₂ | rfl
      · exact hbetween k h₁ h₂
      · exact hkind
  · rename_i hout
    exact (previousOutside_eq_some_iff hi).2
      ⟨Nat.lt_succ_self i, ⟨t, h, by simpa using hout⟩, fun k h₁ h₂ => by omega⟩

/-- The lexemes before a token that are no layout, the last one first. -/
def before (s : TokenStream) (i : Nat) : List Lexeme := (meaningful (s.lexemes.take i)).reverse

theorem lexemes_getElem? (s : TokenStream) (i : Nat) :
    s.lexemes[i]? = (s.get? i).map Token.lexeme := by
  simp [lexemes, get?]

theorem lexeme_of_get? (h : s.get? i = some t) : s.lexemes[i]? = some t.lexeme := by
  rw [lexemes_getElem?, h]
  rfl

theorem lexeme_mem (h : s.get? i = some t) : t.lexeme ∈ s.lexemes :=
  List.mem_of_getElem? (lexeme_of_get? h)

theorem before_succ (h : s.get? i = some t) :
    s.before (i + 1) =
      if Lexeme.isLayout t.lexeme then s.before i else t.lexeme :: s.before i := by
  have hget := TokenStream.lexeme_of_get? h
  rw [before, List.take_add_one, hget, meaningful_append, List.reverse_append]
  cases hlayout : Lexeme.isLayout t.lexeme with
  | true =>
    rw [meaningful_of_layout (by simpa using hlayout)]
    rfl
  | false =>
    have hkeep : meaningful [t.lexeme] = [t.lexeme] :=
      List.filter_cons_of_pos (by simpa [Lexeme.isLayout] using hlayout)
    rw [Option.toList_some, hkeep]
    rfl

end TokenStream

namespace Spacing

variable {s : TokenStream} {i : Nat} {t : Token}

theorem isUnary_eq (hi : i ≤ s.size) : isUnary s i = lacksOperand (s.before i) := by
  have hfound : ((s.previousOutside TokenKind.empty i).bind s.get?).map Token.lexeme =
      (s.before i).find? fun l => !TokenKind.empty.contains l.1 := by
    induction i with
    | zero => rfl
    | succ i ih =>
      obtain ⟨t, ht⟩ := TokenStream.exists_get? hi
      rw [TokenStream.previousOutside_succ ht, TokenStream.before_succ ht]
      have ih := ih (Nat.le_of_lt hi)
      by_cases hempty : TokenKind.empty.contains t.kind = true
      · rw [if_pos hempty, ih]
        split
        · rfl
        · rw [List.find?_cons_of_neg (by simpa [Token.lexeme] using hempty)]
      · have hsub : TokenKind.layout ⊆ TokenKind.empty := by decide
        have hsolid : ¬Lexeme.isLayout t.lexeme = true := fun hlayout =>
          hempty (List.contains_iff_mem.2 (hsub (List.contains_iff_mem.1 hlayout)))
        rw [if_neg hempty, if_neg hsolid, List.find?_cons_of_pos (by simpa [Token.lexeme] using hempty)]
        simp [ht]
  unfold isUnary lacksOperand
  rw [← hfound]
  cases (s.previousOutside TokenKind.empty i).bind s.get? <;> rfl

end Spacing

/-! ### Closing and opening gaps -/

/-- The rule closes no other gaps than those of `cl`. -/
structure Closing.Covers (cl : Closing) (r : Rule) : Prop where
  operators : r.base = .operatorSpacing → cl.operators = true
  punctuation : r.base = .punctuationSpacing → cl.punctuation = true

theorem Closing.Covers.base {cl : Closing} (h : cl.Covers r) : cl.Covers r.base := by
  induction r with
  | onPaths inner _ ih => exact ih ⟨h.operators, h.punctuation⟩
  | _ => exact h

/-- What the rules of a set close. -/
def Ruleset.closing (rs : Ruleset) : Closing :=
  ⟨rs.rules.any (·.base == .operatorSpacing), rs.rules.any (·.base == .punctuationSpacing)⟩

theorem Ruleset.covers {rs : Ruleset} (hr : r ∈ rs.rules) : rs.closing.Covers r :=
  ⟨fun h => List.any_eq_true.2 ⟨r, hr, by rw [h]; rfl⟩,
    fun h => List.any_eq_true.2 ⟨r, hr, by rw [h]; rfl⟩⟩

theorem Token.valueText_eq_iff {t : Token} {v : String} : t.valueText = v ↔ t.value = v.toList := by
  constructor
  · rintro rfl
    exact String.toList_ofList.symm
  · intro h
    rw [valueText, h, String.ofList_toList]

section Wanted

variable {s : TokenStream} {i w : Nat} {t : Token} {sp : Spacing} {cl : Closing} {r : Rule}
  {side : Spacing.Side} {own partners : List TokenKind} {neighbour : Option Nat}

theorem Spacing.delimiterSpace_eq_some_iff : delimiterSpace s i own partners neighbour = some w ↔
      ∃ j, neighbour = some j ∧ s.kindIn i own = true ∧ s.kindIn j partners = false ∧ w = 1 := by
  cases neighbour with
  | none => simp [delimiterSpace]
  | some j =>
    simp only [delimiterSpace, Option.some.injEq, exists_eq_left']
    cases s.kindIn i own <;> cases s.kindIn j partners <;> simp [eq_comm]

theorem Spacing.delimiterSpace_eq_some (ht : s.get? i = some t)
    (h : delimiterSpace s i own partners neighbour = some w) : t.kind ∈ own ∧ w = 1 := by
  obtain ⟨j, -, hown, -, hone⟩ := delimiterSpace_eq_some_iff.1 h
  rw [TokenStream.kindIn_of_get? ht] at hown
  exact ⟨List.contains_iff_mem.1 hown, hone⟩

theorem Spacing.operators_kind (ht : s.get? i = some t) (h : operators.wanted? s i side = some w) :
    t.kind = .operator := by
  cases side with
  | before | after =>
    simp only [wanted?, operators, ht] at h
    split at h
    · cases h
    · rename_i hkind
      simpa using hkind

theorem Spacing.punctuation_kind (ht : s.get? i = some t)
    (h : punctuation.wanted? s i side = some w) : t.kind = .punctuation := by
  cases side with
  | before =>
    simp only [wanted?, punctuation, ht] at h
    split at h
    · rename_i hkind
      rw [Bool.and_eq_true, beq_iff_eq] at hkind
      exact hkind.1
    · cases h
  | after =>
    simp only [wanted?, punctuation, ht] at h
    split at h
    · cases h
    · rename_i hkind
      simpa using hkind

/-- The kinds of tokens that want a width of the gap on a side of them. -/
def Spacing.Side.kinds : Spacing.Side → List TokenKind
  | .before => [.variableEnd, .blockEnd, .operator, .punctuation]
  | .after => [.variableStart, .blockStart, .operator, .punctuation]

theorem Spacing.kind_of_wanted (hsp : r.spacing? = some sp) (ht : s.get? i = some t)
    (h : sp.wanted? s i side = some w) : t.kind ∈ side.kinds := by
  cases r with
  | delimiterSpacing =>
    cases hsp
    have hsub : openers ⊆ Side.kinds .after ∧ closers ⊆ Side.kinds .before := by decide
    cases side with
    | before => exact hsub.2 (delimiterSpace_eq_some ht h).1
    | after => exact hsub.1 (delimiterSpace_eq_some ht h).1
  | operatorSpacing =>
    cases hsp
    rw [operators_kind ht h]
    cases side <;> decide
  | punctuationSpacing =>
    cases hsp
    rw [punctuation_kind ht h]
    cases side <;> decide
  | _ => cases hsp

theorem Spacing.solid_of_wanted (hsp : r.spacing? = some sp) (ht : s.get? i = some t)
    (h : sp.wanted? s i side = some w) : Lexeme.isLayout t.lexeme = false := by
  have hkinds : ∀ kind ∈ side.kinds, TokenKind.layout.contains kind = false := by
    cases side <;> decide
  exact hkinds _ (kind_of_wanted hsp ht h)

/-- Is the gap on a side of a lexeme closed because of it? -/
def Closing.beside (cl : Closing) (before : List Lexeme) (x : Lexeme) : Spacing.Side → Bool
  | .before => cl.before x
  | .after => cl.after before x

/-- May spaces come in on a side of a lexeme? -/
def opensBeside (x : Lexeme) : Spacing.Side → Bool
  | .before => opensBefore x
  | .after => opensAfter x

theorem Closing.wanted (hcl : cl.Covers r) (hsp : r.spacing? = some sp) (ht : s.get? i = some t)
    (h : sp.wanted? s i side = some w) :
    (w = 0 → cl.beside (s.before i) t.lexeme side = true) ∧
      (w ≠ 0 → opensBeside t.lexeme side = true) := by
  have hi := Nat.le_of_lt (TokenStream.get?_lt ht)
  cases r with
  | delimiterSpacing =>
    cases hsp
    obtain ⟨kind, v, p, rel⟩ := t
    cases side with
    | before | after =>
      obtain ⟨hkind, rfl⟩ := Spacing.delimiterSpace_eq_some ht h
      simp only [Spacing.openers, Spacing.closers, List.mem_cons, List.not_mem_nil, or_false] at hkind
      rcases hkind with rfl | rfl <;> exact ⟨fun h => absurd h Nat.one_ne_zero, fun _ => rfl⟩
  | operatorSpacing =>
    cases hsp
    have hkind := Spacing.operators_kind ht h
    have hoperators : cl.operators = true := hcl.operators rfl
    cases side with
    | before | after =>
      simp [Spacing.wanted?, Spacing.operators, ht, Spacing.isUnary_eq hi, hkind,
        Token.valueText_eq_iff] at h
      simp [beside, Closing.before, Closing.after, opensBeside, opensBefore, opensAfter, hoperators,
        Token.lexeme, hkind]
      grind
  | punctuationSpacing =>
    cases hsp
    have hkind := Spacing.punctuation_kind ht h
    have hpunctuation : cl.punctuation = true := hcl.punctuation rfl
    cases side with
    | before | after =>
      simp [Spacing.wanted?, Spacing.punctuation, ht, hkind, Token.valueText_eq_iff] at h
      simp [beside, Closing.before, Closing.after, opensBeside, opensBefore, opensAfter,
        hpunctuation, Token.lexeme, hkind]
      grind
  | _ => cases hsp

end Wanted

end TwigStyle
