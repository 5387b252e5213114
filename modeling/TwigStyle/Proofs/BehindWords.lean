import TwigStyle.Proofs.Apart
import TwigStyle.Proofs.Grammar

/-!
# Names behind words

An operator that ends with a letter has to end on a word boundary, so that it does not take the
start of a name for itself.  What continues a word and what a name can hold are two different
things, though.  They agree below U+0080 (`isWordChar_of_startsName`); from there on a name can hold
every character, and a word only some of them.

So a number never comes right behind a word, and a name only if it starts with a character of the
difference (`tokenize_behind_word`).  That happens: `in×y` is read as the operator `in` and the
name `×y` (`tokenize_swallows_start`).
-/

namespace TwigStyle

/-- A name starts with a character of names, and a number with a digit. -/
structure Lexeme.Begins (l : Lexeme) : Prop where
  name : l.1 = .name ∨ l.1 = .blockName → l.2.head?.any Lexeme.startsName = true
  number : l.1 = .number → l.2.head?.any Char.isDigit = true

theorem Lexeme.Begins.of_kind {l : Lexeme} (hname : l.1 ≠ .name) (hblock : l.1 ≠ .blockName)
    (hnumber : l.1 ≠ .number) : l.Begins where
  name h := by
    rcases h with h | h
    · exact absurd h hname
    · exact absurd h hblock
  number h := absurd h hnumber

namespace Lexer

variable {s : Lexer} {table : OperatorTable} {frame : Frame} {outer : List Frame} {c : Char}
  {t rest : List Char} {lexed : Lexed}

theorem Reading.begins (h : Reading s table frame outer c t lexed) :
    Lexeme.Begins (lexed.kind, c :: t.take lexed.more) := by
  cases h with
  | layout =>
    apply Lexeme.Begins.of_kind <;> generalize (Lexeme.layoutAt c t).1 = cls <;> cases cls <;>
      exact nofun
  | spread | arrow | operator | string | quote => exact .of_kind nofun nofun nofun
  | name _ _ hc =>
    constructor
    · intro _
      exact hc
    · intro hkind
      rcases nameLexed_kind frame outer c t with h | h <;> rw [h] at hkind <;> cases hkind
  | number _ _ _ hc =>
    constructor
    · rintro (h | h) <;> cases h
    · intro _
      exact hc
  | punctuation _ _ _ _ hpunct =>
    rcases (punctuation?_ok hpunct).1 with h | h <;> rw [h] <;> exact .of_kind nofun nofun nofun

theorem Inside.begins (h : Inside s table frame outer c t lexed) :
    Lexeme.Begins (lexed.kind, c :: t.take lexed.more) := by
  cases h with
  | endQuote | interpolate | literal => exact .of_kind nofun nofun nofun
  | close hend =>
    rcases endAt?_kind hend with rfl | rfl | rfl <;> exact .of_kind nofun nofun nofun
  | read _ _ h => exact h.begins

theorem Data.begins {verbatim verbatim' : Bool} {new : List Lexeme} {frames : List Frame}
    (h : Data verbatim t new frames verbatim' rest) : ∀ l ∈ new, l.Begins := by
  intro l hl
  have hkinds : ∀ k ∈ Zone.template.kinds ++ Zone.comment.kinds ++
      [.commentStart, .commentEnd, .variableStart, .blockStart],
      k ≠ .name ∧ k ≠ .blockName ∧ k ≠ .number := by
    decide
  obtain ⟨hname, hblock, hnumber⟩ := hkinds l.1 (h.kind_mem hl)
  exact .of_kind hname hblock hnumber

end Lexer

/-- Behind a token that ends with a letter, the next one starts with no character of a word. -/
theorem tokenize_boundary {source : List Char} {t : Template} {ls ms : List Lexeme} {a b : Lexeme}
    (h : tokenize OperatorTable.default source = .ok t)
    (hsplit : t.stream.lexemes = ls ++ a :: b :: ms)
    (hletter : a.2.getLast?.any Text.isAsciiLetter = true) :
    b.2.head?.any Text.isWordChar = false := by
  obtain ⟨all, hall, -, -⟩ := tokenize_lexemes h
  have hapart := tokenize_apart h hall
  rw [hsplit] at hall
  rcases List.eq_nil_or_concat ms with rfl | ⟨ms, last, rfl⟩
  · -- The next token is the end of file.
    have hlast : b = (.eof, []) := by
      have := congrArg List.getLast? hall
      simpa using this
    rw [hlast]
    rfl
  · obtain rfl : ls ++ a :: b :: ms = all := by
      rw [List.concat_eq_append, ← List.cons_append, ← List.cons_append,
        ← List.append_assoc] at hall
      exact (List.append_inj' hall rfl).1
    have hboundary := (apart_append.1 hapart).2.1 hletter
    rw [List.append_nil, spell_cons] at hboundary
    cases hb : b.2 with
    | nil => rfl
    | cons c u =>
      rw [hb] at hboundary
      simpa [Operator.atBoundary] using hboundary

/-- Below U+0080 whatever starts a name can continue a word. -/
theorem isWordChar_of_startsName {c : Char} (hc : Lexeme.startsName c = true)
    (hlt : c.toNat < 0x80) : Text.isWordChar c = true := by
  have hstart : c.isAlpha = true ∨ c = '_' := by
    simp only [Lexeme.startsName, Bool.or_eq_true, decide_eq_true_eq, beq_iff_eq] at hc
    rcases hc with hc | hc
    · exact hc
    · omega
  rw [Text.isWordChar, if_pos hlt]
  rcases hstart with halpha | rfl
  · simp [Char.isAlphanum, halpha]
  · rfl

theorem isWordChar_of_isDigit {c : Char} (hc : c.isDigit = true) : Text.isWordChar c = true := by
  have hlt : c.toNat < 0x80 := by
    have := toNat_of_isDigit hc
    omega
  rw [Text.isWordChar, if_pos hlt]
  simp [Char.isAlphanum, hc]

/-- **Behind a word a name starts with no character of words.** Right behind a token that ends with
    a letter, such as a word operator, comes no number, and a name only if it starts with a
    character that names can hold and words cannot: one from U+0080 on that continues no word. -/
theorem tokenize_behind_word {source : List Char} {t : Template} {ls ms : List Lexeme}
    {a b : Lexeme} (h : tokenize OperatorTable.default source = .ok t)
    (hsplit : t.stream.lexemes = ls ++ a :: b :: ms)
    (hletter : a.2.getLast?.any Text.isAsciiLetter = true) :
    b.1 ≠ .number ∧ (b.1 = .name ∨ b.1 = .blockName →
      ∃ c u, b.2 = c :: u ∧ 0x80 ≤ c.toNat ∧ Text.isWordChar c = false) := by
  have hbegins : b.Begins := by
    refine tokenize_forall Lexer.Data.begins Lexer.Inside.begins (.of_kind nofun nofun nofun) h b ?_
    simp [hsplit]
  have hboundary := tokenize_boundary h hsplit hletter
  cases hb : b.2 with
  | nil =>
    constructor
    · intro hkind
      have := hbegins.number hkind
      rw [hb] at this
      cases this
    · intro hkind
      have := hbegins.name hkind
      rw [hb] at this
      cases this
  | cons c u =>
    rw [hb] at hboundary
    have hword : Text.isWordChar c = false := hboundary
    constructor
    · intro hkind
      have hdigit := hbegins.number hkind
      rw [hb] at hdigit
      rw [isWordChar_of_isDigit hdigit] at hword
      cases hword
    · intro hkind
      have hstart := hbegins.name hkind
      rw [hb] at hstart
      refine ⟨c, u, rfl, ?_, hword⟩
      apply Nat.le_of_not_lt
      intro hlt
      rw [isWordChar_of_startsName hstart hlt] at hword
      cases hword

/-- The name of a block right behind an operator. -/
theorem tokenize_behind_word_arrow :
    ∃ t, tokenize OperatorTable.default "\x7b% in→b %\x7d".toList = .ok t ∧
      t.stream.lexemes = [(.blockStart, "\x7b%".toList), (.spaces, [' '])] ++
        (.operator, "in".toList) :: (.blockName, "→b".toList) ::
          [(.spaces, [' ']), (.blockEnd, "%\x7d".toList), (.eof, [])] ∧
      ∃ c u, "→b".toList = c :: u ∧ 0x80 ≤ c.toNat ∧ Text.isWordChar c = false := by
  obtain ⟨t, ht⟩ := exists_ok_of_isOk (x := tokenize OperatorTable.default
    "\x7b% in→b %\x7d".toList) (by decide +kernel)
  have hlexemes : (tokenize OperatorTable.default "\x7b% in→b %\x7d".toList).toOption.map
      (·.stream.lexemes) = some ([(.blockStart, "\x7b%".toList), (.spaces, [' '])] ++
        (.operator, "in".toList) :: (.blockName, "→b".toList) ::
          [(.spaces, [' ']), (.blockEnd, "%\x7d".toList), (.eof, [])]) := by
    decide +kernel
  rw [ht] at hlexemes
  have hsplit := Option.some.inj hlexemes
  exact ⟨t, ht, hsplit, (tokenize_behind_word ht hsplit (by decide)).2 (.inr rfl)⟩

/-- The start of a name is taken for an operator. -/
theorem tokenize_swallows_start :
    Lexeme.startsName '×' = true ∧
    ∃ t, tokenize OperatorTable.default "\x7b\x7b in×y \x7d\x7d".toList = .ok t ∧
      t.stream.lexemes = [(.variableStart, "\x7b\x7b".toList), (.spaces, [' ']),
        (.operator, "in".toList), (.name, "×y".toList), (.spaces, [' ']),
        (.variableEnd, "\x7d\x7d".toList), (.eof, [])] := by
  refine ⟨by decide, ?_⟩
  obtain ⟨t, ht⟩ := exists_ok_of_isOk (x := tokenize OperatorTable.default
    "\x7b\x7b in×y \x7d\x7d".toList) (by decide +kernel)
  have hlexemes : (tokenize OperatorTable.default "\x7b\x7b in×y \x7d\x7d".toList).toOption.map
      (·.stream.lexemes) = some [(.variableStart, "\x7b\x7b".toList), (.spaces, [' ']),
        (.operator, "in".toList), (.name, "×y".toList), (.spaces, [' ']),
        (.variableEnd, "\x7d\x7d".toList), (.eof, [])] := by
    decide +kernel
  rw [ht] at hlexemes
  exact ⟨t, ht, Option.some.inj hlexemes⟩

end TwigStyle
