import TwigStyle.Proofs.Reading

/-!
# Nested tokens

`Nested zone n ts` is the grammar of the tokens `ts` that stand from index `n` on: tokens that stand
alone, and pairs of tokens with nested tokens between them.  Which tokens may occur depends on the
zone: template text, the body of a comment, code, or a string.  Brackets know each other's index,
and no other token knows any.

Everything about pairs follows by induction on the grammar: each bracket has its partner
(`Nested.partnered`) with nested tokens in between, so a pair inside of another pair
stays inside of it (`Nested.related_lt`), and strings and interpolations are balanced there.
-/

namespace TwigStyle

/-- Where a token stands. -/
inductive Zone where
  | template
  | comment
  | code
  | quoted
deriving DecidableEq, Repr

namespace Token

variable {t : Token}

/-- An opening bracket of a shape. -/
def Opens (t : Token) (shape : BracketShape) : Prop :=
  t.kind = .punctuation ∧ ∃ c, t.value = [c] ∧ BracketShape.ofOpener? c = some shape

/-- A closing bracket of a shape. -/
def Closes (t : Token) (shape : BracketShape) : Prop :=
  t.kind = .punctuation ∧ ∃ c, t.value = [c] ∧ BracketShape.ofCloser? c = some shape

/-- Neither an opening nor a closing bracket. -/
def NoBracket (t : Token) : Prop := ∀ shape, ¬t.Opens shape ∧ ¬t.Closes shape

theorem noBracket_of_kind (h : t.kind ≠ .punctuation) : t.NoBracket :=
  fun _ => ⟨fun ho => h ho.1, fun hc => h hc.1⟩

theorem noBracket_of_char {kind : TokenKind} {c : Char} {position : Position}
    {related : Option Nat} (hopener : BracketShape.ofOpener? c = none)
    (hcloser : BracketShape.ofCloser? c = none) :
    NoBracket ⟨kind, [c], position, related⟩ := by
  intro shape
  constructor
  · rintro ⟨-, d, hd, hshape⟩
    cases hd
    rw [hopener] at hshape
    cases hshape
  · rintro ⟨-, d, hd, hshape⟩
    cases hd
    rw [hcloser] at hshape
    cases hshape

theorem Opens.not_closes {shape shape' : BracketShape} (h : t.Opens shape) : ¬t.Closes shape' := by
  rintro ⟨-, d, hd, hclose⟩
  obtain ⟨-, c, hc, hopen⟩ := h
  rw [hc] at hd
  cases hd
  rcases BracketShape.ofOpener?_eq_some_iff.1 hopen with ⟨rfl, -⟩ | ⟨rfl, -⟩ | ⟨rfl, -⟩ <;>
    cases hclose

theorem eq_of_value {shape shape' : BracketShape} {shape? : Char → Option BracketShape}
    (h : ∃ c, t.value = [c] ∧ shape? c = some shape)
    (h' : ∃ c, t.value = [c] ∧ shape? c = some shape') : shape = shape' := by
  obtain ⟨c, hc, hshape⟩ := h
  obtain ⟨d, hd, hshape'⟩ := h'
  rw [hc] at hd
  cases hd
  exact Option.some.inj (hshape.symm.trans hshape')

theorem opensBracket_iff : t.opensBracket = true ↔ ∃ shape, t.Opens shape := by
  simp only [opensBracket, isThe, Bool.or_eq_true, Bool.and_eq_true, beq_iff_eq]
  constructor
  · rintro ((⟨hkind, hvalue⟩ | ⟨hkind, hvalue⟩) | ⟨hkind, hvalue⟩)
    · exact ⟨.round, hkind, '(', hvalue, rfl⟩
    · exact ⟨.square, hkind, '[', hvalue, rfl⟩
    · exact ⟨.curly, hkind, '\x7b', hvalue, rfl⟩
  · rintro ⟨shape, hkind, c, hvalue, hopen⟩
    rcases BracketShape.ofOpener?_eq_some_iff.1 hopen with ⟨rfl, -⟩ | ⟨rfl, -⟩ | ⟨rfl, -⟩
    all_goals simp [hkind, hvalue]

theorem closesBracket_iff : t.closesBracket = true ↔ ∃ shape, t.Closes shape := by
  simp only [closesBracket, isThe, Bool.or_eq_true, Bool.and_eq_true, beq_iff_eq]
  constructor
  · rintro ((⟨hkind, hvalue⟩ | ⟨hkind, hvalue⟩) | ⟨hkind, hvalue⟩)
    · exact ⟨.round, hkind, ')', hvalue, rfl⟩
    · exact ⟨.square, hkind, ']', hvalue, rfl⟩
    · exact ⟨.curly, hkind, '\x7d', hvalue, rfl⟩
  · rintro ⟨shape, hkind, c, hvalue, hclose⟩
    rcases BracketShape.ofCloser?_eq_some_iff.1 hclose with ⟨rfl, -⟩ | ⟨rfl, -⟩ | ⟨rfl, -⟩
    all_goals simp [hkind, hvalue]

theorem noBracket_of_eq_false (hopens : t.opensBracket = false)
    (hcloses : t.closesBracket = false) : t.NoBracket := by
  intro shape
  constructor
  · intro h
    rw [opensBracket_iff.2 ⟨shape, h⟩] at hopens
    cases hopens
  · intro h
    rw [closesBracket_iff.2 ⟨shape, h⟩] at hcloses
    cases hcloses

end Token

/-- The kinds that stand alone in a zone. -/
def Zone.kinds : Zone → List TokenKind
  | template => [.text, .spaces, .tabs, .lineBreak]
  | comment => [.commentText, .commentSpaces, .commentTabs, .commentLineBreak]
  | code => [.spaces, .tabs, .lineBreak, .blockName, .name, .number, .string, .operator,
      .punctuation, .arrow, .spread]
  | quoted => [.string]

/-- Two kinds that enclose tokens of another zone. -/
inductive Encloses : (outer : Zone) → (start stop : TokenKind) → (inner : Zone) → Prop
  | variable : Encloses .template .variableStart .variableEnd .code
  | block : Encloses .template .blockStart .blockEnd .code
  | comment : Encloses .template .commentStart .commentEnd .comment
  | quote : Encloses .code .quoteStart .quoteEnd .quoted
  | interpolation : Encloses .quoted .interpolationStart .interpolationEnd .code

/-- Tokens from index `n` on that are properly nested and know their partners. -/
inductive Nested : Zone → Nat → List Token → Prop
  | nil {zone : Zone} {n : Nat} : Nested zone n []
  | token {zone : Zone} {n : Nat} {t : Token} (hkind : t.kind ∈ zone.kinds) (hno : t.NoBracket)
      (hrelated : t.related = none) :
    Nested zone n [t]
  | append {zone : Zone} {n : Nat} {ts us : List Token} (hts : Nested zone n ts)
      (hus : Nested zone (n + ts.length) us) :
    Nested zone n (ts ++ us)
  | enclose {outer inner : Zone} {n : Nat} {t t' : Token} {ts : List Token}
      (henclose : Encloses outer t.kind t'.kind inner) (hrelated : t.related = none)
      (hrelated' : t'.related = none) (hts : Nested inner (n + 1) ts) :
    Nested outer n (t :: (ts ++ [t']))
  | bracket {n : Nat} {t t' : Token} {ts : List Token} {shape : BracketShape}
      (hopens : t.Opens shape) (hcloses : t'.Closes shape)
      (hrelated : t.related = some (n + ts.length + 1)) (hrelated' : t'.related = some n)
      (hts : Nested .code (n + 1) ts) :
    Nested .code n (t :: (ts ++ [t']))

/-- The kinds of delimiters. -/
def delimiterKinds : List TokenKind :=
  [.variableStart, .variableEnd, .blockStart, .blockEnd, .commentStart, .commentEnd]

theorem Encloses.kind_ne {outer inner : Zone} {start stop : TokenKind}
    (h : Encloses outer start stop inner) : start ≠ .punctuation ∧ stop ≠ .punctuation := by
  cases h <;> exact ⟨nofun, nofun⟩

namespace Nested

variable {zone : Zone} {n : Nat} {ts us vs as : List Token} {t : Token} {shape : BracketShape}

/-! ### Partners -/

theorem split_append (h : ts ++ us = as ++ t :: vs) :
    (∃ w, ts = as ++ t :: w ∧ vs = w ++ us) ∨ ∃ w, as = ts ++ w ∧ us = w ++ t :: vs := by
  rcases List.append_eq_append_iff.1 h with ⟨w, rfl, hw⟩ | ⟨w, rfl, hw⟩
  · exact .inr ⟨w, rfl, hw⟩
  · cases w with
    | nil => exact .inr ⟨[], by simp, by simpa using hw.symm⟩
    | cons x w =>
      obtain ⟨rfl, rfl⟩ := List.cons.inj hw
      exact .inl ⟨w, rfl, rfl⟩

theorem split_around {t₁ t₂ : Token} (h : t₁ :: (ts ++ [t₂]) = as ++ t :: vs) :
    (as = [] ∧ t = t₁ ∧ vs = ts ++ [t₂]) ∨
      (∃ w x, as = t₁ :: w ∧ ts = w ++ t :: x ∧ vs = x ++ [t₂]) ∨
      (as = t₁ :: ts ∧ t = t₂ ∧ vs = []) := by
  cases as with
  | nil =>
    obtain ⟨rfl, rfl⟩ := List.cons.inj h
    exact .inl ⟨rfl, rfl, rfl⟩
  | cons a as =>
    obtain ⟨rfl, htail⟩ := List.cons.inj h
    rcases split_append htail with ⟨w, rfl, rfl⟩ | ⟨w, rfl, hw⟩
    · exact .inr (.inl ⟨as, w, rfl, rfl, rfl⟩)
    · cases w with
      | nil =>
        obtain ⟨rfl, rfl⟩ := List.cons.inj hw
        exact .inr (.inr ⟨by simp, rfl, rfl⟩)
      | cons x w => simp at hw

/-- The bracket `t` between `us` and `vs` has its partner behind it, with nested tokens in between, or
    before it. -/
inductive Partnered (n : Nat) : (us : List Token) → (t : Token) → (vs : List Token) → Prop
  | opens {us ws vs : List Token} {t t' : Token} {shape : BracketShape} (hopens : t.Opens shape)
      (hcloses : t'.Closes shape) (hrelated : t.related = some (n + us.length + ws.length + 1))
      (hrelated' : t'.related = some (n + us.length)) (hws : Nested .code (n + us.length + 1) ws) :
    Partnered n us t (ws ++ t' :: vs)
  | closes {us ws vs : List Token} {t t' : Token} {shape : BracketShape} (hopens : t'.Opens shape)
      (hcloses : t.Closes shape) (hrelated : t.related = some (n + us.length))
      (hrelated' : t'.related = some (n + us.length + ws.length + 1)) :
    Partnered n (us ++ t' :: ws) t vs

theorem Partnered.extend (ps xs : List Token) (h : Partnered (n + ps.length) us t vs) :
    Partnered n (ps ++ us) t (vs ++ xs) := by
  cases h with
  | opens hopens hcloses hrelated hrelated' hws =>
    rw [Nat.add_assoc n, ← List.length_append] at hrelated hrelated' hws
    rw [List.append_assoc, List.cons_append]
    exact .opens hopens hcloses hrelated hrelated' hws
  | closes hopens hcloses hrelated hrelated' =>
    rw [Nat.add_assoc n, ← List.length_append] at hrelated hrelated'
    rw [← List.append_assoc]
    exact .closes hopens hcloses hrelated hrelated'

theorem partnered (h : Nested zone n (us ++ t :: vs)) (hbracket : ¬t.NoBracket) :
    Partnered n us t vs := by
  generalize hts : us ++ t :: vs = ts at h
  induction h generalizing us vs with
  | nil => simp at hts
  | token _ hno _ =>
    rcases List.append_eq_singleton_iff.1 hts with ⟨rfl, ht⟩ | ⟨-, ht⟩
    · obtain ⟨rfl, -⟩ := List.cons.inj ht
      exact absurd hno hbracket
    · cases ht
  | @append zone n ts₁ ts₂ h₁ h₂ ih₁ ih₂ =>
    rcases split_append hts.symm with ⟨w, rfl, rfl⟩ | ⟨w, rfl, rfl⟩
    · exact (ih₁ rfl).extend [] ts₂
    · rw [← List.append_nil vs]
      exact (ih₂ rfl).extend ts₁ []
  | @enclose outer inner n t₁ t₂ ts henclose _ _ _ ih =>
    rcases split_around hts.symm with ⟨-, rfl, -⟩ | ⟨w, x, rfl, rfl, rfl⟩ | ⟨-, rfl, -⟩
    · exact absurd (Token.noBracket_of_kind henclose.kind_ne.1) hbracket
    · exact (ih rfl).extend [t₁] [t₂]
    · exact absurd (Token.noBracket_of_kind henclose.kind_ne.2) hbracket
  | @bracket n t₁ t₂ ts shape hopens hcloses hrelated hrelated' hts' ih =>
    rcases split_around hts.symm with ⟨rfl, rfl, rfl⟩ | ⟨w, x, rfl, rfl, rfl⟩ | ⟨rfl, rfl, rfl⟩
    · exact .opens hopens hcloses hrelated hrelated' hts'
    · exact (ih rfl).extend [t₁] [t₂]
    · exact @Partnered.closes n [] ts [] _ t₁ shape hopens hcloses hrelated' hrelated

/-- An opening bracket has its partner behind it, with nested tokens in between. -/
theorem opener (h : Nested zone n (us ++ t :: vs)) (hopens : t.Opens shape) :
    ∃ ws t' xs, vs = ws ++ t' :: xs ∧ t'.Closes shape ∧
      t.related = some (n + us.length + ws.length + 1) ∧ t'.related = some (n + us.length) ∧
      Nested .code (n + us.length + 1) ws := by
  cases h.partnered fun hno => (hno shape).1 hopens with
  | opens hopens' hcloses hrelated hrelated' hws =>
    obtain rfl := Token.eq_of_value hopens'.2 hopens.2
    exact ⟨_, _, _, rfl, hcloses, hrelated, hrelated', hws⟩
  | closes _ hcloses => exact absurd hcloses hopens.not_closes

theorem closer (h : Nested zone n (us ++ t :: vs)) (hcloses : t.Closes shape) :
    ∃ ws t' xs, us = ws ++ t' :: xs ∧ t'.Opens shape ∧ t.related = some (n + ws.length) ∧
      t'.related = some (n + us.length) := by
  cases h.partnered fun hno => (hno shape).2 hcloses with
  | opens hopens => exact absurd hcloses hopens.not_closes
  | closes hopens hcloses' hrelated hrelated' =>
    obtain rfl := Token.eq_of_value hcloses'.2 hcloses.2
    rw [List.length_append, List.length_cons, ← Nat.add_assoc, ← Nat.add_assoc]
    exact ⟨_, _, _, rfl, hopens, hrelated, hrelated'⟩

theorem forall_mem_around {p : Token → Prop} {t₁ t₂ : Token} (h₁ : p t₁) (hts : ∀ t ∈ ts, p t)
    (h₂ : p t₂) : ∀ t ∈ t₁ :: (ts ++ [t₂]), p t :=
  List.forall_mem_cons.2 ⟨h₁, List.forall_mem_append.2 ⟨hts, List.forall_mem_singleton.2 h₂⟩⟩

theorem related_none (h : Nested zone n ts) : ∀ t ∈ ts, t.NoBracket → t.related = none := by
  induction h with
  | nil => exact nofun
  | token _ _ hrelated => exact List.forall_mem_singleton.2 fun _ => hrelated
  | append _ _ ih₁ ih₂ => exact List.forall_mem_append.2 ⟨ih₁, ih₂⟩
  | enclose _ hrelated hrelated' _ ih =>
    exact forall_mem_around (fun _ => hrelated) ih fun _ => hrelated'
  | bracket hopens hcloses _ _ _ ih =>
    exact forall_mem_around (fun hno => absurd hopens (hno _).1) ih
      fun hno => absurd hcloses (hno _).2

/-- Partners stand among the same nested tokens. -/
theorem related_lt (h : Nested zone n ts) (ht : t ∈ ts) {j : Nat} (hrelated : t.related = some j) :
    n ≤ j ∧ j < n + ts.length := by
  by_cases hno : t.NoBracket
  · rw [h.related_none t ht hno] at hrelated
    cases hrelated
  · obtain ⟨us, vs, rfl⟩ := List.append_of_mem ht
    cases h.partnered hno with
    | opens _ _ hpartner | closes _ _ hpartner =>
      rw [hrelated] at hpartner
      cases hpartner
      simp only [List.length_append, List.length_cons]
      omega

/-! ### What stands between partners -/

theorem kind_notMem (h : Nested zone n ts) (hzone : zone = .code ∨ zone = .quoted) :
    ∀ t ∈ ts, t.kind ∉ delimiterKinds := by
  induction h with
  | nil => exact nofun
  | token hkind _ _ =>
    refine List.forall_mem_singleton.2 ?_
    rcases hzone with rfl | rfl <;> revert hkind <;> generalize Token.kind _ = k <;>
      cases k <;> decide
  | append _ _ ih₁ ih₂ => exact List.forall_mem_append.2 ⟨ih₁ hzone, ih₂ hzone⟩
  | @enclose outer inner n t₁ t₂ ts henclose _ _ _ ih =>
    have hkinds : (t₁.kind ∉ delimiterKinds ∧ t₂.kind ∉ delimiterKinds) ∧
        (inner = .code ∨ inner = .quoted) := by
      generalize t₁.kind = k₁ at henclose ⊢
      generalize t₂.kind = k₂ at henclose ⊢
      cases henclose with
      | «variable» | block | comment => rcases hzone with h | h <;> cases h
      | quote => exact ⟨by decide, .inr rfl⟩
      | interpolation => exact ⟨by decide, .inl rfl⟩
    exact forall_mem_around hkinds.1.1 (ih hkinds.2) hkinds.1.2
  | bracket hopens hcloses _ _ _ ih =>
    refine forall_mem_around ?_ (ih hzone) ?_
    · rw [hopens.1]
      decide
    · rw [hcloses.1]
      decide

end Nested

/-- The kinds that open and close strings and interpolations. -/
def quoteKinds : List TokenKind := [.quoteStart, .quoteEnd, .interpolationStart, .interpolationEnd]

/-- Strings and interpolations are balanced: each start has its end, in proper order. -/
inductive Balanced : List TokenKind → Prop
  | nil : Balanced []
  | other {k : TokenKind} {ks : List TokenKind} (hk : k ∉ quoteKinds) (hks : Balanced ks) :
    Balanced (k :: ks)
  | quote {ks ls : List TokenKind} (hks : Balanced ks) (hls : Balanced ls) :
    Balanced (.quoteStart :: (ks ++ .quoteEnd :: ls))
  | interpolation {ks ls : List TokenKind} (hks : Balanced ks) (hls : Balanced ls) :
    Balanced (.interpolationStart :: (ks ++ .interpolationEnd :: ls))

theorem Balanced.append {ks ls : List TokenKind} (hks : Balanced ks) (hls : Balanced ls) :
    Balanced (ks ++ ls) := by
  induction hks with
  | nil => exact hls
  | other hk _ ih => exact .other hk ih
  | quote hks _ _ ih =>
    rw [List.cons_append, List.append_assoc, List.cons_append]
    exact .quote hks ih
  | interpolation hks _ _ ih =>
    rw [List.cons_append, List.append_assoc, List.cons_append]
    exact .interpolation hks ih

theorem Nested.balanced {zone : Zone} {n : Nat} {ts : List Token} (h : Nested zone n ts) :
    Balanced (ts.map Token.kind) := by
  have hsingle : ∀ {k : TokenKind}, k ∉ quoteKinds → Balanced [k] := fun hk => .other hk .nil
  induction h with
  | nil => exact .nil
  | @token zone n t hkind _ _ =>
    refine hsingle ?_
    generalize t.kind = k at hkind ⊢
    cases zone <;> revert hkind <;> cases k <;> decide
  | append _ _ ih₁ ih₂ =>
    rw [List.map_append]
    exact ih₁.append ih₂
  | @enclose outer inner n t₁ t₂ ts henclose _ _ _ ih =>
    rw [List.map_cons, List.map_append, List.map_singleton]
    generalize t₁.kind = k₁ at henclose ⊢
    generalize t₂.kind = k₂ at henclose ⊢
    cases henclose with
    | «variable» | block | comment => exact .other (by decide) (ih.append (hsingle (by decide)))
    | quote => exact .quote ih .nil
    | interpolation => exact .interpolation ih .nil
  | bracket hopens hcloses _ _ _ ih =>
    rw [List.map_cons, List.map_append, List.map_singleton, hopens.1, hcloses.1]
    exact .other (by decide) (ih.append (hsingle (by decide)))

end TwigStyle
