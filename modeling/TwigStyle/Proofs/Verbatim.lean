import TwigStyle.Proofs.Concatenation
import TwigStyle.Proofs.Grammar

/-!
# Verbatim bodies

The body of a verbatim block is text up to the tag that ends it.  That tag is looked for among the
delimiters, and delimiters do not overlap: of a row of opening braces the first two are one, then
the next two, and so on.  So the brace of an end tag is seen only if an even number of opening braces
stands right before it (`Apart`), and `find_verbatim` says that the search stops at the first end tag
that is seen.

`tokenize_verbatim` says it of tokens: behind a block called `verbatim` or `raw` there are only
lexemes of text up to that tag, or up to the end of the file if there is none.
-/

namespace TwigStyle

namespace Delimiter

variable {blanks q rest start t tag u value : List Char} {c : Char} {k : Construct}

/-! ### The tag that ends a body -/

/-- The spelling of a tag that ends a verbatim body, and the delimiter that it starts with. -/
inductive EndTag : (start tag : List Char) → Prop
  | intro {marker blanks name blanks' marker' : List Char}
      (hmarker : marker ∈ [[], ['-'], ['~']]) (hblanks : ∀ c ∈ blanks, Text.isBlank c = true)
      (hname : name = "endverbatim".toList ∨ name = "endraw".toList)
      (hblanks' : ∀ c ∈ blanks', Text.isBlank c = true) (hmarker' : marker' ∈ [[], ['-'], ['~']]) :
    EndTag ('\x7b' :: '%' :: marker)
      ('\x7b' :: '%' :: marker ++ blanks ++ name ++ blanks' ++ marker' ++ ['%', '\x7d'])

theorem trimMarker_fst_mem (t : List Char) : (trimMarker t).1 ∈ [[], ['-'], ['~']] := by
  unfold trimMarker
  split
  · rename_i c t
    by_cases hc : isTrimMarker c = true
    · rw [if_pos hc]
      simp only [isTrimMarker, Bool.or_eq_true, beq_iff_eq] at hc
      rcases hc with rfl | rfl <;> simp
    · simp [hc]
  · simp

theorem trimMarker_marker {marker : List Char} (hmarker : marker ∈ [[], ['-'], ['~']])
    (ht : ∀ c ∈ t.head?, isTrimMarker c = false) : trimMarker (marker ++ t) = (marker, t) := by
  simp only [List.mem_cons, List.not_mem_nil, or_false] at hmarker
  rcases hmarker with rfl | rfl | rfl
  · cases t with
    | nil => rfl
    | cons c t => simp [trimMarker, ht c rfl]
  · rfl
  · rfl

theorem isTrimMarker_of_isBlank (h : Text.isBlank c = true) : isTrimMarker c = false := by
  rw [Bool.eq_false_iff]
  intro hc
  simp only [isTrimMarker, Bool.or_eq_true, beq_iff_eq] at hc
  rcases hc with rfl | rfl <;> cases h

theorem dropWhile_blanks (hblanks : ∀ c ∈ blanks, Text.isBlank c = true)
    (ht : ∀ c ∈ t.head?, Text.isBlank c = false) : (blanks ++ t).dropWhile Text.isBlank = t := by
  rw [List.dropWhile_append_of_pos hblanks]
  cases t with
  | nil => rfl
  | cons c t => rw [List.dropWhile_cons_of_neg (by rw [ht c rfl]; exact nofun)]

theorem isTrimMarker_of_name {name : List Char} (hblanks : ∀ c ∈ blanks, Text.isBlank c = true)
    (hname : name = "endverbatim".toList ∨ name = "endraw".toList) :
    ∀ c ∈ (blanks ++ (name ++ u)).head?, isTrimMarker c = false := by
  intro c hc
  cases blanks with
  | nil => rcases hname with rfl | rfl <;> cases hc <;> rfl
  | cons b blanks =>
    cases hc
    exact isTrimMarker_of_isBlank (hblanks _ List.mem_cons_self)

theorem endsVerbatim_eq_true_iff :
    endsVerbatim t = true ↔ ∃ start tag after, EndTag start tag ∧ t = tag ++ after := by
  rw [endsVerbatim_iff]
  constructor
  · rintro ⟨t₁, name, t₂, t₃, rfl, hname, h₂, h₃⟩
    have hblanks : ∀ c ∈ (trimMarker t₁).2.takeWhile Text.isBlank, Text.isBlank c = true :=
      fun c hc => of_mem_takeWhile hc
    have hblanks' : ∀ c ∈ t₂.takeWhile Text.isBlank, Text.isBlank c = true :=
      fun c hc => of_mem_takeWhile hc
    refine ⟨_, _, t₃, .intro (trimMarker_fst_mem t₁) hblanks hname hblanks'
      (trimMarker_fst_mem (t₂.dropWhile Text.isBlank)), ?_⟩
    have h₁ : (trimMarker t₁).1 ++ ((trimMarker t₁).2.takeWhile Text.isBlank ++ (name ++ t₂)) = t₁ := by
      rw [← h₂, List.takeWhile_append_dropWhile, trimMarker_append]
    have h₂' : t₂.takeWhile Text.isBlank ++ ((trimMarker (t₂.dropWhile Text.isBlank)).1 ++
        '%' :: '\x7d' :: t₃) = t₂ := by
      rw [← h₃, trimMarker_append, List.takeWhile_append_dropWhile]
    simp only [List.cons_append, List.append_assoc, List.nil_append, h₂', h₁]
  · rintro ⟨start, tag, after, ⟨hmarker, hblanks, hname, hblanks', hmarker'⟩, rfl⟩
    rename_i marker blanks name blanks' marker'
    refine ⟨marker ++ (blanks ++ (name ++ (blanks' ++ (marker' ++ '%' :: '\x7d' :: after)))), name,
      blanks' ++ (marker' ++ '%' :: '\x7d' :: after), after, by simp, hname, ?_, ?_⟩
    · rw [trimMarker_marker hmarker (isTrimMarker_of_name hblanks hname), dropWhile_blanks hblanks]
      intro c hc
      rcases hname with rfl | rfl <;> cases hc <;> rfl
    · rw [dropWhile_blanks hblanks', trimMarker_marker hmarker' (by rintro c ⟨⟩; rfl)]
      intro c hc
      simp only [List.mem_cons, List.not_mem_nil, or_false] at hmarker'
      rcases hmarker' with rfl | rfl | rfl <;> cases hc <;> rfl

/-! ### Which end tags are seen -/

/-- How many opening braces stand at the end of a text. -/
def trailingBraces (t : List Char) : Nat := (t.reverse.takeWhile (· == '\x7b')).length

theorem trailingBraces_brace (t : List Char) :
    trailingBraces (t ++ ['\x7b']) = trailingBraces t + 1 := by
  simp [trailingBraces]

theorem trailingBraces_other (t : List Char) (hc : c ≠ '\x7b') : trailingBraces (t ++ [c]) = 0 := by
  simp [trailingBraces, hc]

/-- A brace behind this text is not the second one of a delimiter. -/
def Apart (t : List Char) : Prop := trailingBraces t % 2 = 0

instance (t : List Char) : Decidable (Apart t) := inferInstanceAs (Decidable (_ = 0))

theorem apart_other (t : List Char) (hc : c ≠ '\x7b') : Apart (t ++ [c]) := by
  rw [Apart, trailingBraces_other t hc]

theorem not_apart_brace (h : Apart t) : ¬Apart (t ++ ['\x7b']) := by
  simp only [Apart, trailingBraces_brace] at h ⊢
  omega

theorem Apart.append_delimiter (h : Apart q) (hat : at? (value ++ rest) = some (k, value, rest)) :
    Apart (q ++ value) := by
  obtain ⟨d, marker, rfl, -, hmarker⟩ := at?_eq_some_iff.1 hat
  have hmem := trimMarker_fst_mem (marker ++ rest)
  simp only [hmarker, List.mem_cons, List.not_mem_nil, or_false] at hmem
  rcases hmem with rfl | rfl | rfl
  · by_cases hd : d = '\x7b'
    · subst hd
      have htwo : q ++ ['\x7b', '\x7b'] = q ++ ['\x7b'] ++ ['\x7b'] := by simp
      simp only [Apart, htwo, trailingBraces_brace] at h ⊢
      omega
    · rw [List.append_cons]
      exact apart_other _ hd
  · rw [List.append_cons, List.append_cons _ d]
    exact apart_other _ nofun
  · rw [List.append_cons, List.append_cons _ d]
    exact apart_other _ nofun

theorem at?_of_endsVerbatim (h : endsVerbatim t = true) : ∃ d, at? t = some d := by
  obtain ⟨t₁, -, -, -, rfl, -⟩ := endsVerbatim_iff.1 h
  exact ⟨_, rfl⟩

theorem head?_of_endsVerbatim (h : endsVerbatim t = true) : t.head? = some '\x7b' := by
  obtain ⟨t₁, -, -, -, rfl, -⟩ := endsVerbatim_iff.1 h
  rfl

/-- The part of a text that belongs to a delimiter is passed over. -/
theorem find_skip (verbatim : Bool) (skipped t : List Char) :
    find verbatim skipped.length (skipped ++ t) =
      (skipped ++ (find verbatim 0 t).1, (find verbatim 0 t).2) := by
  induction skipped with
  | nil => rfl
  | cons c skipped ih =>
    simp only [List.length_cons, List.cons_append, find, ih]

theorem find_delimiter (hat : at? (value ++ rest) = some (k, value, rest))
    (hend : endsVerbatim (value ++ rest) = false) :
    find true 0 (value ++ rest) = (value ++ (find true 0 rest).1, (find true 0 rest).2) := by
  obtain ⟨d, marker, rfl, -, -⟩ := at?_eq_some_iff.1 hat
  have hskip := find_skip true (d :: marker) rest
  simp only [List.cons_append, List.length_cons] at hat hend hskip ⊢
  simp only [find, hat, hend, List.length_cons, Nat.add_sub_cancel, hskip, Bool.not_false,
    Bool.and_self, if_true]

theorem endsVerbatim_of_delimiter {p : List Char} (hq : Apart q)
    (hat : at? (p ++ u ++ rest) = some (k, p ++ u, rest)) (hp : p ≠ []) (hu : u ≠ [])
    (happ : Apart (q ++ p)) : endsVerbatim (u ++ rest) = false := by
  rw [Bool.eq_false_iff]
  intro hend
  have hbrace : '\x7b' ∈ u := by
    obtain ⟨c, u, rfl⟩ := List.exists_cons_of_ne_nil hu
    cases head?_of_endsVerbatim hend
    exact List.mem_cons_self
  obtain ⟨d, marker, hvalue, -, hmarker⟩ := at?_eq_some_iff.1 hat
  obtain ⟨a, p, rfl⟩ := List.exists_cons_of_ne_nil hp
  simp only [List.cons_append, List.cons.injEq] at hvalue
  obtain ⟨rfl, hvalue⟩ := hvalue
  cases p with
  | nil => exact not_apart_brace hq happ
  | cons b p =>
    -- What is left of the delimiter is its marker.
    simp only [List.cons_append, List.cons.injEq] at hvalue
    obtain ⟨rfl, rfl⟩ := hvalue
    have hmem := trimMarker_fst_mem (p ++ u ++ rest)
    rw [hmarker] at hmem
    have hbrace' : '\x7b' ∈ p ++ u := List.mem_append_right p hbrace
    simp only [List.mem_cons, List.not_mem_nil, or_false] at hmem
    rcases hmem with hnil | hone | hone
    · simp [hnil] at hbrace'
    · simp [hone] at hbrace'
    · simp [hone] at hbrace'

/-- Where no end tag starts, the search goes on behind a character or a delimiter, and no end tag that
    starts in it is seen. -/
theorem find_step (hq : c = '\x7b' → Apart q) (hend : endsVerbatim (c :: t) = false) :
    ∃ skipped rest, c :: t = skipped ++ rest ∧ skipped ≠ [] ∧
      find true 0 (c :: t) = (skipped ++ (find true 0 rest).1, (find true 0 rest).2) ∧
      (rest.head? = some '\x7b' → Apart (q ++ skipped)) ∧
      ∀ p u, skipped = p ++ u → p ≠ [] → u ≠ [] → Apart (q ++ p) →
        endsVerbatim (u ++ rest) = false := by
  cases hat : at? (c :: t) with
  | none =>
    refine ⟨[c], t, rfl, List.cons_ne_nil _ _, by simp only [find, hat]; rfl, ?_, ?_⟩
    · intro ht
      -- Two braces would be a delimiter.
      refine apart_other q ?_
      rintro rfl
      cases t with
      | nil => cases ht
      | cons d t =>
        cases ht
        cases hat
    · intro p u hpu hp hu _
      have hlen := congrArg List.length hpu
      rw [List.length_append, List.length_singleton] at hlen
      have := List.length_pos_iff.2 hp
      have := List.length_pos_iff.2 hu
      omega
  | some d =>
    obtain ⟨k, value, rest⟩ := d
    obtain ⟨happend, hvalue⟩ := at?_append hat
    rw [← happend] at hat hend ⊢
    have hc : c = '\x7b' := by
      obtain ⟨d, marker, rfl, -, -⟩ := at?_eq_some_iff.1 hat
      exact (List.cons.inj happend).1.symm
    refine ⟨value, rest, rfl, hvalue, find_delimiter hat hend,
      fun _ => (hq hc).append_delimiter hat, ?_⟩
    rintro p u rfl hp hu happ
    exact endsVerbatim_of_delimiter (hq hc) hat hp hu happ

/-- The search in a verbatim body stops at an end tag that is seen, and at the first one. -/
theorem find_verbatim (hq : t.head? = some '\x7b' → Apart q) :
    (∀ before d, find true 0 t = (before, some d) → Apart (q ++ before)) ∧
    ∀ p u, t = p ++ u → Apart (q ++ p) → endsVerbatim u = true →
      ∃ before d, find true 0 t = (before, some d) ∧ before.length ≤ p.length := by
  induction hlen : t.length using Nat.strongRecOn generalizing q t with
  | ind n ih =>
    cases t with
    | nil =>
      refine ⟨nofun, fun p u hpu _ hend => ?_⟩
      obtain ⟨-, rfl⟩ := List.append_eq_nil_iff.1 hpu.symm
      cases hend
    | cons c t =>
      cases hend : endsVerbatim (c :: t) with
      | true =>
        obtain ⟨⟨k, value, rest⟩, hat⟩ := at?_of_endsVerbatim hend
        have happend := (at?_append hat).1
        rw [← happend] at hat hend
        have hfind : find true 0 (value ++ rest) = _ := find_of_at? hat fun _ => hend
        rw [happend] at hfind
        refine ⟨fun before d hbefore => ?_, fun p u _ _ _ => ⟨[], _, hfind, Nat.zero_le _⟩⟩
        rw [hfind] at hbefore
        cases hbefore
        rw [List.append_nil]
        rw [← happend] at hq
        exact hq (head?_of_endsVerbatim hend)
      | false =>
        obtain ⟨skipped, rest, hsplit, hskipped, hfind, hrest, hhidden⟩ :=
          find_step (fun hc => hq (congrArg some hc)) hend
        have hshorter : rest.length < n := by
          rw [← hlen, hsplit, List.length_append]
          have := List.length_pos_iff.2 hskipped
          omega
        obtain ⟨ihApart, ihFirst⟩ := ih _ hshorter hrest rfl
        rw [hfind]
        constructor
        · intro before d hbefore
          obtain ⟨rfl, hd⟩ := Prod.mk.inj hbefore
          rw [← List.append_assoc]
          exact ihApart _ d (Prod.ext rfl hd)
        · intro p u hpu happ hu
          obtain ⟨w, rfl, hw⟩ : ∃ w, p = skipped ++ w ∧ rest = w ++ u := by
            -- An end tag that is seen starts behind what is passed over.
            rcases List.append_eq_append_iff.1 (hsplit.symm.trans hpu) with h | ⟨w, hw, rfl⟩
            · exact h
            · by_cases hnil : w = []
              · exact ⟨[], by simp [hw, hnil], by simp [hnil]⟩
              · by_cases hp : p = []
                · rw [hpu, hp, List.nil_append, hu] at hend
                  cases hend
                · rw [hhidden p w hw hp hnil happ] at hu
                  cases hu
          rw [← List.append_assoc] at happ
          obtain ⟨before, d, hbefore, hle⟩ := ihFirst w u hw happ hu
          refine ⟨skipped ++ before, d, by rw [hbefore], ?_⟩
          simp only [List.length_append]
          omega

/-- The first end tag of a text that is seen: the text before it and its delimiter. -/
structure FirstEnd (t before start : List Char) : Prop where
  tag : ∃ tag after, EndTag start tag ∧ t = before ++ (tag ++ after)
  apart : Apart before
  first : ∀ before' start' tag after, EndTag start' tag → t = before' ++ (tag ++ after) →
    Apart before' → before.length ≤ before'.length

/-- No end tag of a text is seen. -/
def NoEnd (t : List Char) : Prop :=
  ∀ before start tag after, EndTag start tag → t = before ++ (tag ++ after) → ¬Apart before

theorem EndTag.at?_eq (h : EndTag start tag) (after : List Char) :
    ∃ rest, at? (tag ++ after) = some (.block, start, rest) := by
  obtain @⟨marker, blanks, name, blanks', marker', hmarker, hblanks, hname, -, -⟩ := h
  have htrim := trimMarker_marker hmarker
    (isTrimMarker_of_name (u := blanks' ++ (marker' ++ '%' :: '\x7d' :: after)) hblanks hname)
  refine ⟨blanks ++ (name ++ (blanks' ++ (marker' ++ '%' :: '\x7d' :: after))), ?_⟩
  simp only [List.cons_append, List.append_assoc, List.nil_append, at?, htrim]
  rfl

theorem apart_nil : Apart [] := rfl

theorem EndTag.start_eq {after : List Char} (h : EndTag start tag)
    (hat : at? (value ++ rest) = some (k, value, rest)) (hvalue : value ++ rest = tag ++ after) :
    k = .block ∧ value = start := by
  obtain ⟨rest', hstart⟩ := h.at?_eq after
  rw [hvalue, hstart] at hat
  cases hat
  exact ⟨rfl, rfl⟩

theorem firstEnd_iff {before : List Char} :
    FirstEnd t before start ↔ ∃ rest, find true 0 t = (before, some (.block, start, rest)) := by
  obtain ⟨hapart, hfirst⟩ := find_verbatim (q := []) (t := t) fun _ => apart_nil
  constructor
  · rintro ⟨⟨tag, after, htag, ht⟩, happ, hleast⟩
    obtain ⟨found, ⟨k, value, rest⟩, hfind, hle⟩ := hfirst before _ ht happ
      (endsVerbatim_eq_true_iff.2 ⟨start, tag, after, htag, rfl⟩)
    obtain ⟨hat, hend⟩ := find_found hfind
    obtain ⟨start', tag', after', htag', hvalue⟩ := endsVerbatim_eq_true_iff.1 (hend rfl)
    have hsplit := (find_append hfind).1
    -- What is found is an end tag that is seen, so no earlier one.
    have hge : before.length ≤ found.length :=
      hleast found start' tag' after' htag' (by rw [← hsplit, hvalue]) (hapart found _ hfind)
    obtain ⟨rfl, htail⟩ := List.append_inj (hsplit.trans ht) (Nat.le_antisymm hle hge)
    obtain ⟨rfl, rfl⟩ := htag.start_eq hat htail
    exact ⟨rest, hfind⟩
  · rintro ⟨rest, hfind⟩
    obtain ⟨hat, hend⟩ := find_found hfind
    obtain ⟨start', tag, after, htag, hvalue⟩ := endsVerbatim_eq_true_iff.1 (hend rfl)
    obtain ⟨-, rfl⟩ := htag.start_eq hat hvalue
    refine ⟨⟨tag, after, htag, ?_⟩, hapart before _ hfind, ?_⟩
    · rw [← hvalue, (find_append hfind).1]
    · intro before' start' tag' after' htag' ht happ
      obtain ⟨found, d, hfind', hle⟩ := hfirst before' _ ht happ
        (endsVerbatim_eq_true_iff.2 ⟨start', tag', after', htag', rfl⟩)
      rw [hfind] at hfind'
      cases hfind'
      exact hle

theorem noEnd_iff : NoEnd t ↔ find true 0 t = (t, none) := by
  obtain ⟨hapart, hfirst⟩ := find_verbatim (q := []) (t := t) fun _ => apart_nil
  constructor
  · intro h
    rcases hfind : find true 0 t with ⟨found, _ | ⟨k, value, rest⟩⟩
    · rw [find_none hfind]
    · obtain ⟨-, hend⟩ := find_found hfind
      obtain ⟨start, tag, after, htag, hvalue⟩ := endsVerbatim_eq_true_iff.1 (hend rfl)
      refine absurd (hapart found _ hfind) (h found start tag after htag ?_)
      rw [← hvalue, (find_append hfind).1]
  · intro hfind before start tag after htag ht happ
    obtain ⟨found, d, hfind', -⟩ := hfirst before _ ht happ
      (endsVerbatim_eq_true_iff.2 ⟨start, tag, after, htag, rfl⟩)
    rw [hfind] at hfind'
    cases hfind'

theorem firstEnd_or_noEnd (t : List Char) : (∃ before start, FirstEnd t before start) ∨ NoEnd t := by
  rcases hfind : find true 0 t with ⟨before, _ | ⟨k, value, rest⟩⟩
  · refine .inr (noEnd_iff.2 ?_)
    rw [hfind, find_none hfind]
  · obtain ⟨hat, hend⟩ := find_found hfind
    obtain ⟨start, tag, after, htag, hvalue⟩ := endsVerbatim_eq_true_iff.1 (hend rfl)
    obtain ⟨rfl, rfl⟩ := htag.start_eq hat hvalue
    exact .inl ⟨before, value, firstEnd_iff.2 ⟨rest, hfind⟩⟩

end Delimiter

/-! ### The lexer in a body -/

namespace Lexer

variable {s s' : Lexer} {table : OperatorTable} {frame : Frame} {outer frames : List Frame}
  {c : Char} {t rest : List Char} {lexed : Lexed} {verbatim verbatim' : Bool} {new : List Lexeme}

theorem Data.of_find_block {before start after : List Char}
    (h : Data verbatim t new frames verbatim' rest)
    (hfind : Delimiter.find verbatim 0 t = (before, some (.block, start, after))) :
    new = textLexemes before ++ [(.blockStart, start)] := by
  cases h with
  | text hfind' | «variable» hfind' | comment hfind' =>
    rw [hfind] at hfind'
    cases hfind'
  | block hfind' =>
    rw [hfind] at hfind'
    cases hfind'
    rfl

theorem Data.of_find_none (h : Data verbatim t new frames verbatim' rest)
    (hfind : Delimiter.find verbatim 0 t = (t, none)) : new = textLexemes t ∧ rest = [] := by
  cases h with
  | text hfind' =>
    rw [hfind] at hfind'
    cases hfind'
    exact ⟨rfl, rfl⟩
  | «variable» hfind' | block hfind' | comment hfind' =>
    rw [hfind] at hfind'
    cases hfind'

theorem Named.frames_of_blockEnd (h : s.Named) (hframes : s.frames = frame :: outer)
    (hlexed : Inside s table frame outer c t lexed) (hkind : lexed.kind = .blockEnd) :
    lexed.frames = [] := by
  have heffect := hlexed.effect
  generalize lexed.frames = frames at heffect
  generalize lexed.kind = kind at heffect hkind
  cases heffect with
  | keep _ _ hend => exact absurd hkind hend
  | name => cases hkind
  | enter _ _ _ hend => exact absurd hkind hend
  | leave =>
    cases h with
    | outside hnil _ =>
      rw [hframes] at hnil
      cases hnil
    | inside inner outermost hsplit hinner _ _ =>
      rw [hframes] at hsplit
      cases inner with
      | nil => exact (List.cons.inj hsplit).2
      | cons a inner =>
        -- A block is open in nothing else.
        obtain ⟨rfl, -⟩ := List.cons.inj hsplit
        have hnested := hinner frame List.mem_cons_self
        cases frame with
        | «variable» | block => cases hnested
        | quote | interpolation => cases hkind

/-- A verbatim body is text up to the first end tag that is seen. -/
theorem run_verbatim (hframes : s.frames = []) (hverbatim : s.verbatim = true)
    (hrun : run table s t = .ok s') :
    (∀ before start, Delimiter.FirstEnd t before start → ∃ more,
      s'.emitted = s.emitted ++ (textLexemes before ++ (.blockStart, start) :: more)) ∧
    (Delimiter.NoEnd t → s'.emitted = s.emitted ++ textLexemes t) := by
  simp only [Delimiter.firstEnd_iff, Delimiter.noEnd_iff]
  cases t with
  | nil =>
    rw [run] at hrun
    cases hrun
    refine ⟨?_, fun _ => by simp [textLexemes, Lexeme.layoutPieces]⟩
    rintro before start ⟨rest, hfind⟩
    cases hfind
  | cons c t =>
    cases hstep : s.step table c t with
    | error e =>
      rw [run_error hstep] at hrun
      cases hrun
    | ok next =>
      obtain ⟨s₁, rest⟩ := next
      rw [run_cons hstep] at hrun
      have hdata : s.data (c :: t) = .ok (s₁, rest) := by
        rw [← hstep, step, hframes]
      obtain ⟨new, hdata, hnew⟩ := data_of_ok hframes hdata
      rw [hverbatim] at hdata
      constructor
      · rintro before start ⟨after, hfind⟩
        obtain ⟨more, hmore, -, -⟩ := run_emits hrun
        refine ⟨more, ?_⟩
        rw [hmore, hnew, hdata.of_find_block hfind]
        simp
      · intro hfind
        obtain ⟨rfl, rfl⟩ := hdata.of_find_none hfind
        rw [run] at hrun
        cases hrun
        exact hnew

/-- A token that ends a block called `verbatim` or `raw` is read in a step behind which a verbatim body
    starts. -/
theorem exists_body {source : List Char} {tpl : Template} {ls ms : List Lexeme} {v : List Char}
    (h : tokenize table source = .ok tpl) (hsplit : tpl.stream.lexemes = ls ++ (.blockEnd, v) :: ms)
    (hname : namesVerbatim (lastBlockName? ls) = true) :
    ∃ s final rest, s.frames = [] ∧ s.verbatim = true ∧ run table s rest = .ok final ∧
      s.emitted = ls ++ [(.blockEnd, v)] ∧ final.emitted ++ [(.eof, [])] = ls ++ (.blockEnd, v) :: ms := by
  obtain ⟨s, frame, outer, c, u, lexed, final, hnamed, hframes, hlexed, hls, hkind, hvalue, hstep,
    hrun, hfinal⟩ := tokenize_moment_inside named_init Named.step h hsplit (by decide)
  have hframes' : (s.take frame lexed c u).frames = [] := by
    rw [take_frames]
    exact hnamed.frames_of_blockEnd hframes hlexed hkind.symm
  have hemitted' : (s.take frame lexed c u).emitted = ls ++ [(.blockEnd, v)] := by
    rw [emitted_take, ← hkind, ← hvalue, hls]
  refine ⟨_, final, _, hframes', ?_, hrun, hemitted', hfinal.symm⟩
  cases hnamed.step hstep with
  | outside _ hbody =>
    rw [hemitted'] at hbody
    rw [hbody _ List.getLast?_concat rfl, lastBlockName?_concat (k := .blockEnd) nofun nofun, hname]
    rfl
  | inside inner outermost hopen =>
    rw [hframes'] at hopen
    simp at hopen

end Lexer

/-! ### Tokens behind a verbatim block -/

/-- **A verbatim body is text up to its end tag.** Let a block called `verbatim` or `raw` end, and let
    `rest` be the source behind it.  If an end tag of the body is seen, then lexemes of text spell what
    stands before the first one, and its delimiter follows; otherwise all that follows is text.  An end
    tag is seen if the opening braces right before it are even in number: otherwise the last of them
    and the brace of the tag are a delimiter. -/
theorem tokenize_verbatim {table : OperatorTable} {source rest v : List Char} {t : Template}
    {ls ms : List Lexeme} (h : tokenize table source = .ok t)
    (hsplit : t.stream.lexemes = ls ++ (.blockEnd, v) :: ms)
    (hname : lastBlockName? ls = some "verbatim".toList ∨ lastBlockName? ls = some "raw".toList)
    (hsource : source = spell ls ++ v ++ rest) :
    (∀ before start, Delimiter.FirstEnd rest before start → ∃ body more,
      ms = body ++ (.blockStart, start) :: more ∧ spell body = before ∧
        ∀ l ∈ body, l.1 ∈ [.text, .spaces, .tabs, .lineBreak]) ∧
    (Delimiter.NoEnd rest → ∃ body, ms = body ++ [(.eof, [])] ∧ spell body = rest ∧
      ∀ l ∈ body, l.1 ∈ [.text, .spaces, .tabs, .lineBreak]) := by
  have hverbatim : namesVerbatim (lastBlockName? ls) = true := by
    rcases hname with hname | hname <;> rw [hname] <;> rfl
  have hkinds : ∀ {body : List Char}, ∀ l ∈ textLexemes body,
      l.1 ∈ [TokenKind.text, .spaces, .tabs, .lineBreak] :=
    fun l hl => kinds_textLexemes _ l.1 (List.mem_map_of_mem hl)
  obtain ⟨s, final, rest', hframes, hbody, hrun, hemitted, hfinal⟩ :=
    Lexer.exists_body h hsplit hverbatim
  obtain ⟨new, hnew, hspell, -⟩ := Lexer.run_emits hrun
  have hms : ms = new ++ [(.eof, [])] := by
    rw [hnew, hemitted] at hfinal
    simpa using hfinal.symm
  -- The source is spelled by the tokens, so what is left at the end of the block is the rest of it.
  obtain rfl : rest' = rest := by
    obtain ⟨all, hall, hspellAll, -⟩ := tokenize_lexemes h
    rw [hsplit, hms] at hall
    have hends : (ls ++ (.blockEnd, v) :: new) ++ [(.eof, [])] = all ++ [(.eof, [])] := by
      simpa using hall
    obtain ⟨rfl, -⟩ := List.append_inj' hends rfl
    rw [hsource] at hspellAll
    simpa [hspell] using hspellAll
  obtain ⟨hfirst, hnone⟩ := Lexer.run_verbatim hframes hbody hrun
  constructor
  · intro before start hend
    obtain ⟨more, hmore⟩ := hfirst before start hend
    rw [hnew, List.append_cancel_left_eq] at hmore
    refine ⟨textLexemes before, more ++ [(.eof, [])], ?_, spell_textLexemes before, hkinds⟩
    rw [hms, hmore]
    simp
  · intro hend
    have hmore := hnone hend
    rw [hnew, List.append_cancel_left_eq] at hmore
    exact ⟨textLexemes rest', by rw [hms, hmore], spell_textLexemes rest', hkinds⟩

/-- A pair of braces stands before the end tag. -/
theorem tokenize_verbatim_braces :
    ∃ t ms, tokenize OperatorTable.default
        "\x7b%verbatim%\x7d\x7b\x7b\x7b%-endverbatim%\x7d".toList = .ok t ∧
      t.stream.lexemes = [(.blockStart, "\x7b%".toList), (.blockName, "verbatim".toList)] ++
        (.blockEnd, "%\x7d".toList) :: ms ∧
      ∃ body more, ms = body ++ (.blockStart, "\x7b%-".toList) :: more ∧
        spell body = "\x7b\x7b".toList ∧
        ∀ l ∈ body, l.1 ∈ [.text, .spaces, .tabs, .lineBreak] := by
  obtain ⟨t, ht⟩ := exists_ok_of_isOk (x := tokenize OperatorTable.default
    "\x7b%verbatim%\x7d\x7b\x7b\x7b%-endverbatim%\x7d".toList) (by decide +kernel)
  have hlexemes : (tokenize OperatorTable.default
      "\x7b%verbatim%\x7d\x7b\x7b\x7b%-endverbatim%\x7d".toList).toOption.map (·.stream.lexemes) =
      some ([(.blockStart, "\x7b%".toList), (.blockName, "verbatim".toList)] ++
        (.blockEnd, "%\x7d".toList) :: [(.text, "\x7b\x7b".toList), (.blockStart, "\x7b%-".toList),
          (.blockName, "endverbatim".toList), (.blockEnd, "%\x7d".toList), (.eof, [])]) := by
    decide +kernel
  rw [ht] at hlexemes
  have hsplit := Option.some.inj hlexemes
  have hfirst : Delimiter.FirstEnd "\x7b\x7b\x7b%-endverbatim%\x7d".toList "\x7b\x7b".toList
      "\x7b%-".toList :=
    Delimiter.firstEnd_iff.2 ⟨"endverbatim%\x7d".toList, by decide +kernel⟩
  exact ⟨t, _, ht, hsplit,
    (tokenize_verbatim ht hsplit (.inl (by decide +kernel)) (by decide +kernel)).1 _ _ hfirst⟩

/-- A single brace hides the end tag behind it, and the rest of the file is text. -/
theorem tokenize_verbatim_brace :
    Delimiter.EndTag "\x7b%".toList "\x7b% endverbatim %\x7d".toList ∧
    (tokenize OperatorTable.default
      ("\x7b% verbatim %\x7d\x7b".toList ++ "\x7b% endverbatim %\x7d".toList)).toOption.map
        (·.stream.lexemes) =
      some ([(.blockStart, "\x7b%".toList), (.spaces, " ".toList), (.blockName, "verbatim".toList),
        (.spaces, " ".toList)] ++ (.blockEnd, "%\x7d".toList) :: [(.text, "\x7b\x7b%".toList),
        (.spaces, " ".toList), (.text, "endverbatim".toList), (.spaces, " ".toList),
        (.text, "%\x7d".toList), (.eof, [])]) := by
  have hblank : ∀ c ∈ [' '], Text.isBlank c = true := by
    intro c hc
    rw [List.mem_singleton.1 hc]
    rfl
  refine ⟨?_, by decide +kernel⟩
  exact @Delimiter.EndTag.intro [] [' '] "endverbatim".toList [' '] [] (by decide) hblank
    (.inl rfl) hblank (by decide)

end TwigStyle
