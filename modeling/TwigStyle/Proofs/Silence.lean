import TwigStyle.Proofs.Counted

/-!
# What silences findings

A comment silences findings exactly if its first word is one of three words
(`Directive.split?_eq_none_iff`).  Words are not cut when a template is cut into tokens, so whether a
template silences anything depends on its lexemes and not on its layout (`tokenize_directives`).
-/

namespace TwigStyle

/-! ### First words -/

namespace Text

variable {g v w w' r r' t : List Char}

/-- What stands before the first blank, blanks in front aside. -/
def firstWord (t : List Char) : List Char := (trimStart t).takeWhile (!isBlank ·)

theorem takeWhile_word (hw : ∀ c ∈ w, isBlank c = false) (hr : ∀ c ∈ r.head?, isBlank c = true) :
    (w ++ r).takeWhile (!isBlank ·) = w := by
  have hnil : r.takeWhile (!isBlank ·) = [] := by
    cases r with
    | nil => rfl
    | cons c r => simp [hr c rfl]
  rw [List.takeWhile_append_of_pos (fun c hc => by simp [hw c hc]), hnil, List.append_nil]

theorem word_unique (hw : ∀ c ∈ w, isBlank c = false) (hr : ∀ c ∈ r.head?, isBlank c = true)
    (hw' : ∀ c ∈ w', isBlank c = false) (hr' : ∀ c ∈ r'.head?, isBlank c = true)
    (h : w ++ r = w' ++ r') : w = w' := by
  rw [← takeWhile_word hw hr, h, takeWhile_word hw' hr']

theorem firstWord_of_blank (hg : ∀ c ∈ g, isBlank c = true) (t : List Char) :
    firstWord (g ++ t) = firstWord t := by
  rw [firstWord, trimStart, List.dropWhile_append_of_pos hg]
  rfl

theorem exists_firstWord (t : List Char) :
    ∃ g r, t = g ++ (firstWord t ++ r) ∧ trimStart t = firstWord t ++ r ∧
      (∀ c ∈ g, isBlank c = true) ∧ (∀ c ∈ firstWord t, isBlank c = false) ∧
      ∀ c ∈ r.head?, isBlank c = true := by
  refine ⟨t.takeWhile isBlank, (trimStart t).dropWhile (!isBlank ·), ?_, ?_, ?_, ?_, ?_⟩
  · rw [firstWord, List.takeWhile_append_dropWhile, trimStart, List.takeWhile_append_dropWhile]
  · rw [firstWord, List.takeWhile_append_dropWhile]
  · exact fun c hc => of_mem_takeWhile hc
  · intro c hc
    have := List.all_eq_true.1 (List.all_takeWhile (p := (!isBlank ·))) c hc
    simpa using this
  · intro c hc
    have := List.head?_dropWhile_not (!isBlank ·) (trimStart t)
    rw [hc] at this
    simpa using this

theorem blank_of_firstWord (h : firstWord v = []) : ∀ c ∈ v, isBlank c = true := by
  obtain ⟨g, r, hv, htrim, hg, -, hr⟩ := exists_firstWord v
  rw [h, List.nil_append] at hv htrim
  -- What is left after the blanks in front does not start with a blank.
  have hnil : r = [] := by
    cases r with
    | nil => rfl
    | cons c r =>
      have hhead := List.head?_dropWhile_not isBlank v
      rw [trimStart] at htrim
      rw [htrim] at hhead
      exact absurd hhead (by simp [hr c rfl])
  rw [hnil, List.append_nil] at hv
  rw [hv]
  exact hg

theorem firstWord_append (hr : ∀ c ∈ r.head?, isBlank c = true) :
    firstWord (v ++ r) = if firstWord v = [] then firstWord r else firstWord v := by
  split
  · rename_i hnil
    exact firstWord_of_blank (blank_of_firstWord hnil) r
  · rename_i hne
    obtain ⟨g, u, hv, -, hg, hword, hu⟩ := exists_firstWord v
    obtain ⟨c, w, hw⟩ := List.exists_cons_of_ne_nil hne
    have hsplit : v ++ r = g ++ (firstWord v ++ (u ++ r)) := by
      rw [← List.append_assoc, ← List.append_assoc, List.append_assoc g, ← hv]
    have htail : ∀ c ∈ (u ++ r).head?, isBlank c = true := by
      cases u with
      | nil => exact hr
      | cons d u => exact hu
    have htrim : trimStart (firstWord v ++ (u ++ r)) = firstWord v ++ (u ++ r) := by
      have hc : isBlank c = false := hword c (by rw [hw]; exact List.mem_cons_self)
      rw [hw, trimStart, List.cons_append, List.dropWhile_cons_of_neg (by simp [hc])]
    rw [hsplit, firstWord_of_blank hg, firstWord, htrim, takeWhile_word hword htail]

theorem exists_trimEnd (hw : ∀ c ∈ w, isBlank c = false) (hr : ∀ c ∈ r.head?, isBlank c = true) :
    ∃ r', trimEnd (w ++ r) = w ++ r' ∧ ∀ c ∈ r'.head?, isBlank c = true := by
  rw [trimEnd, List.reverse_append, List.dropWhile_append]
  split
  · refine ⟨[], ?_, by simp⟩
    have hkeep : w.reverse.dropWhile isBlank = w.reverse := by
      cases hrev : w.reverse with
      | nil => rfl
      | cons c u =>
        have hc : c ∈ w := by
          rw [← List.mem_reverse, hrev]
          exact List.mem_cons_self
        rw [List.dropWhile_cons_of_neg (by simp [hw c hc])]
    rw [hkeep, List.reverse_reverse, List.append_nil]
  · rename_i hne
    refine ⟨(r.reverse.dropWhile isBlank).reverse, by simp, ?_⟩
    obtain ⟨u, hu⟩ := List.dropWhile_suffix (l := r.reverse) isBlank
    have hrest : r = (r.reverse.dropWhile isBlank).reverse ++ u.reverse := by
      rw [← List.reverse_append, hu, List.reverse_reverse]
    intro c hc
    refine hr c ?_
    rw [hrest]
    cases hkept : (r.reverse.dropWhile isBlank).reverse with
    | nil =>
      rw [hkept] at hc
      cases hc
    | cons d v =>
      rw [hkept] at hc
      exact hc

end Text

/-! ### Directives -/

namespace Directive

/-- The words that a comment has to start with. -/
def starts : List (List Char) :=
  [keyword, keyword ++ "-line".toList, keyword ++ "-next-line".toList]

theorem starts_solid : ∀ w ∈ starts, ∀ c ∈ w, Text.isBlank c = false := by
  have h : starts.all (fun w => w.all fun c => !Text.isBlank c) = true := by decide
  intro w hw c hc
  simpa using List.all_eq_true.1 (List.all_eq_true.1 h w hw) c hc

theorem scopeOf_cut (t : List Char) :
    ∃ u ∈ starts, keyword ++ t = u ++ (scopeOf t).2 := by
  unfold scopeOf
  split
  · rename_i rest hafter
    rw [Text.after?_eq_some_iff.1 hafter]
    exact ⟨keyword ++ "-line".toList, by simp [starts], (List.append_assoc ..).symm⟩
  · split
    · rename_i rest hafter
      rw [Text.after?_eq_some_iff.1 hafter]
      exact ⟨keyword ++ "-next-line".toList, by simp [starts], (List.append_assoc ..).symm⟩
    · exact ⟨keyword, by simp [starts], rfl⟩

theorem scopeOf_snd {u r x : List Char} (hu : u ∈ starts)
    (hr : ∀ c ∈ r.head?, Text.isBlank c = true) (h : u ++ r = keyword ++ x) :
    (scopeOf x).2 = r := by
  simp only [starts, List.mem_cons, List.not_mem_nil, or_false] at hu
  rcases hu with rfl | rfl | rfl
  · -- A scope does not start with a blank.
    obtain rfl : r = x := List.append_cancel_left h
    unfold scopeOf
    split
    · rename_i rest hafter
      rw [Text.after?_eq_some_iff.1 hafter] at hr
      exact absurd (hr '-' rfl) (by decide)
    · split
      · rename_i rest hafter
        rw [Text.after?_eq_some_iff.1 hafter] at hr
        exact absurd (hr '-' rfl) (by decide)
      · rfl
  · rw [List.append_assoc] at h
    obtain rfl := List.append_cancel_left h
    rw [scopeOf, Text.after?_append]
  · rw [List.append_assoc] at h
    obtain rfl := List.append_cancel_left h
    have hline : Text.after? "-line".toList ("-next-line".toList ++ r) = none := by
      cases hafter : Text.after? "-line".toList ("-next-line".toList ++ r) with
      | none => rfl
      | some rest => exact absurd (Text.after?_eq_some_iff.1 hafter) (by simp)
    rw [scopeOf, hline, Text.after?_append]

/-- **A comment is a directive exactly if its first word is one of three words.** -/
theorem split?_eq_none_iff (t : List Char) : split? t = none ↔ Text.firstWord t ∉ starts := by
  obtain ⟨g, r, -, htrim, -, hw, hr⟩ := Text.exists_firstWord t
  obtain ⟨r', hend, hr'⟩ := Text.exists_trimEnd hw hr
  have hcut : Text.trim t = Text.firstWord t ++ r' := by rw [Text.trim, htrim, hend]
  unfold split?
  rw [hcut]
  cases hafter : Text.after? keyword (Text.firstWord t ++ r') with
  | none =>
    refine ⟨fun _ hstart => ?_, fun _ => rfl⟩
    obtain ⟨u, hu⟩ : ∃ u, Text.firstWord t = keyword ++ u := by
      simp only [starts, List.mem_cons, List.not_mem_nil, or_false] at hstart
      rcases hstart with h | h | h
      · exact ⟨[], by rw [h, List.append_nil]⟩
      · exact ⟨_, h⟩
      · exact ⟨_, h⟩
    rw [hu, List.append_assoc, Text.after?_append] at hafter
    cases hafter
  | some x =>
    have hx := Text.after?_eq_some_iff.1 hafter
    obtain ⟨u, hu, hscope⟩ := scopeOf_cut x
    rw [← hx] at hscope
    -- What follows the scope is empty or starts with a blank exactly if the word ends there.
    have hstarts : (∀ c ∈ (scopeOf x).2.head?, Text.isBlank c = true) ↔ Text.firstWord t ∈ starts := by
      constructor
      · intro hblank
        rw [Text.word_unique hw hr' (starts_solid u hu) hblank hscope]
        exact hu
      · intro hstart
        rw [scopeOf_snd hstart hr' hx]
        exact hr'
    rw [← hstarts]
    simp only
    cases (scopeOf x).2 with
    | nil => simp
    | cons c rest => simp

theorem parse?_eq_nil_iff (t : List Char) (line : Nat) :
    (parse? t line).getD [] = [] ↔ Text.firstWord t ∉ starts := by
  rw [← split?_eq_none_iff, parse?]
  cases split? t with
  | none => simp
  | some p =>
    obtain ⟨scope, ids⟩ := p
    simp only [reduceCtorEq, iff_false]
    cases items ids <;> simp

end Directive

/-! ### Comments that silence findings -/

/-- Do the lexemes behind the start of a comment start with a directive?  Layout does not count. -/
def startsDirective : List Lexeme → Bool
  | [] => false
  | l :: ls =>
    if l.1 == .commentText && !(Text.firstWord l.2).isEmpty then
      Directive.starts.contains (Text.firstWord l.2)
    else (l.1 == .commentText || Lexeme.isLayout l) && startsDirective ls

/-- Is one of the comments a directive? -/
def silences : List Lexeme → Bool
  | [] => false
  | l :: ls => l.1 == .commentStart && startsDirective ls || silences ls

section Silences

variable {ls ms : List Lexeme} {l : Lexeme}

theorem startsDirective_layout (hl : Lexeme.isLayout l = true) :
    startsDirective (l :: ls) = startsDirective ls := by
  have hkind : l.1 ≠ .commentText := by
    intro h
    rw [Lexeme.isLayout, h] at hl
    cases hl
  simp [startsDirective, hl, hkind]

theorem startsDirective_text (w : List Char) :
    startsDirective ((.commentText, w) :: ls) =
      if Text.firstWord w = [] then startsDirective ls
      else Directive.starts.contains (Text.firstWord w) := by
  by_cases hw : Text.firstWord w = [] <;> simp [startsDirective, hw]

theorem startsDirective_meaningful (ls : List Lexeme) :
    startsDirective (meaningful ls) = startsDirective ls := by
  induction ls with
  | nil => rfl
  | cons l ls ih =>
    cases hl : Lexeme.isLayout l with
    | true => rw [meaningful_cons_layout hl, startsDirective_layout hl, ih]
    | false => rw [meaningful_cons_solid hl, startsDirective, startsDirective, ih]

theorem silences_meaningful (ls : List Lexeme) : silences (meaningful ls) = silences ls := by
  induction ls with
  | nil => rfl
  | cons l ls ih =>
    cases hl : Lexeme.isLayout l with
    | true =>
      have hkind : l.1 ≠ .commentStart := by
        intro h
        rw [Lexeme.isLayout, h] at hl
        cases hl
      simp [meaningful_cons_layout hl, silences, ih, hkind]
    | false => rw [meaningful_cons_solid hl, silences, silences, startsDirective_meaningful, ih]

theorem silences_append (h : ∀ l ∈ ls, l.1 ≠ .commentStart) :
    silences (ls ++ ms) = silences ms := by
  induction ls with
  | nil => rfl
  | cons l ls ih =>
    simp [silences, h l List.mem_cons_self, ih fun m hm => h m (List.mem_cons_of_mem l hm)]

end Silences

/-- A comment starts with a directive exactly if its body does. -/
theorem startsDirective_comment (body stop : List Char) (more : List Lexeme) :
    startsDirective (commentLexemes body ++ (.commentEnd, stop) :: more) =
      Directive.starts.contains (Text.firstWord body) := by
  rw [commentLexemes_eq]
  generalize hn : body.length = n
  induction n using Nat.strongRecOn generalizing body with
  | ind n ih =>
    cases body with
    | nil =>
      rw [pieceLexemes_nil]
      rfl
    | cons c t =>
      have hlength : ∀ m, (t.drop m).length < n := by
        intro m
        rw [← hn, List.length_drop, List.length_cons]
        omega
      by_cases hc : Text.isLayout c = true
      · obtain ⟨hcls, hgap⟩ := Lexeme.layoutAt_of_layout hc t
        have hblank : ∀ d ∈ c :: t.take (Lexeme.layoutAt c t).2, Text.isBlank d = true := by
          intro d hd
          rcases List.mem_cons.1 hd with rfl | hd
          · exact isBlank_of_isLayout hc
          · exact isBlank_of_isLayout (hgap d hd)
        have hword := Text.firstWord_of_blank hblank (t.drop (Lexeme.layoutAt c t).2)
        rw [List.cons_append, List.take_append_drop] at hword
        rw [pieceLexemes_cons, List.cons_append, startsDirective_layout (by
          rw [Lexeme.isLayout, commentKind_tells, bne_iff_ne]; exact hcls), hword]
        exact ih _ (hlength _) _ rfl
      · -- A word up to the next layout.
        obtain ⟨w, u, hsplit, hw, hu, hshort⟩ : ∃ w u, c :: t = w ++ u ∧
            (w ≠ [] ∧ ∀ d ∈ w, Text.isLayout d = false) ∧
            (∀ d ∈ u.head?, Text.isLayout d = true) ∧ u.length < n := by
          refine ⟨c :: t.takeWhile (!Text.isLayout ·), t.dropWhile (!Text.isLayout ·), ?_, ?_, ?_, ?_⟩
          · rw [List.cons_append, List.takeWhile_append_dropWhile]
          · refine ⟨List.cons_ne_nil _ _, fun d hd => ?_⟩
            rcases List.mem_cons.1 hd with rfl | hd
            · exact Bool.eq_false_iff.2 hc
            · simpa using List.all_eq_true.1 (List.all_takeWhile (p := (!Text.isLayout ·))) d hd
          · intro d hd
            have := List.head?_dropWhile_not (!Text.isLayout ·) t
            rw [hd] at this
            simpa using this
          · rw [← hn, List.length_cons]
            exact Nat.lt_succ_of_le (List.dropWhile_suffix _).length_le
        have hblank : ∀ d ∈ u.head?, Text.isBlank d = true :=
          fun d hd => isBlank_of_isLayout (hu d hd)
        rw [hsplit, pieceLexemes_word hw.2 hw.1 hu, Text.firstWord_append hblank, List.cons_append]
        rw [show Lexeme.LayoutClass.text.commentKind = TokenKind.commentText from rfl,
          startsDirective_text, ih _ hshort _ rfl]
        split <;> rfl

/-! ### What the lexer finds -/

namespace Lexer

variable {s s' : Lexer} {table : OperatorTable} {frame : Frame} {outer : List Frame} {c : Char}
  {t rest : List Char} {lexed : Lexed}

@[simp] theorem emit_directives (s : Lexer) (kind : TokenKind) (value : List Char) :
    (s.emit kind value).directives = s.directives := rfl

@[simp] theorem emitAll_directives (s : Lexer) (pieces : List Lexeme) :
    (s.emitAll pieces).directives = s.directives := by
  induction pieces generalizing s with
  | nil => rfl
  | cons p pieces ih => exact ih (s.emit p.1 p.2)

@[simp] theorem take_directives (s : Lexer) (frame : Frame) (lexed : Lexed) (c : Char)
    (t : List Char) : (s.take frame lexed c t).directives = s.directives := by
  unfold take
  cases lexed.partner <;> rfl

theorem Inside.kind_ne_commentStart (h : Inside s table frame outer c t lexed) :
    lexed.kind ≠ .commentStart := by
  intro hkind
  have hmem := h.kind_mem
  rw [hkind] at hmem
  exact absurd hmem (by decide)

/-- What was emitted silences findings exactly if a directive was found. -/
structure Heard (s s' : Lexer) (new : List Lexeme) : Prop where
  emitted : s'.emitted = s.emitted ++ new
  directives : s'.directives = [] ↔ s.directives = [] ∧ silences new = false
  append : ∀ more, silences (new ++ more) = (silences new || silences more)

theorem heard_of_same {new : List Lexeme} (hemitted : s'.emitted = s.emitted ++ new)
    (hdirectives : s'.directives = s.directives) (hnew : ∀ l ∈ new, l.1 ≠ .commentStart) :
    Heard s s' new := by
  have hsilent : silences new = false := by
    rw [← List.append_nil new, silences_append hnew]
    rfl
  refine ⟨hemitted, by simp [hdirectives, hsilent], fun more => ?_⟩
  rw [silences_append hnew, hsilent, Bool.false_or]

theorem kind_of_mem_textLexemes (before : List Char) :
    ∀ l ∈ textLexemes before, l.1 ≠ .commentStart := by
  intro l hl
  obtain ⟨⟨cls, v⟩, -, rfl⟩ := List.mem_map.1 hl
  cases cls <;> exact nofun

theorem kind_of_mem_commentLexemes (body : List Char) :
    ∀ l ∈ commentLexemes body, l.1 ≠ .commentStart := by
  intro l hl
  obtain ⟨⟨cls, v⟩, -, rfl⟩ := List.mem_map.1 hl
  cases cls <;> exact nofun

theorem heard_comment {before start : List Char}
    (h : ({ s.emitAll (textLexemes before) with verbatim := false } : Lexer).comment start t =
      .ok (s', rest)) : ∃ new, Heard s s' new := by
  unfold comment at h
  simp only at h
  split at h
  · cases h
  · rename_i body stop after hbody
    cases h
    have hsilences : ∀ more, silences ((textLexemes before ++ ((.commentStart, start) ::
        (commentLexemes body ++ [(.commentEnd, stop)]))) ++ more) =
        (Directive.starts.contains (Text.firstWord body) || silences more) := by
      intro more
      have hrest : silences (commentLexemes body ++ (.commentEnd, stop) :: more) = silences more := by
        rw [silences_append (kind_of_mem_commentLexemes body)]
        rfl
      rw [List.append_assoc, silences_append (kind_of_mem_textLexemes before), List.cons_append,
        silences, List.append_assoc, List.singleton_append, startsDirective_comment, hrest]
      rfl
    have hself := hsilences []
    rw [List.append_nil, show silences [] = false from rfl, Bool.or_false] at hself
    refine ⟨textLexemes before ++ ((.commentStart, start) ::
      (commentLexemes body ++ [(.commentEnd, stop)])), by simp [commentLexemes], ?_,
      fun more => by rw [hsilences, hself]⟩
    rw [hself, Bool.eq_false_iff, Ne, List.contains_iff_mem]
    simp only [emit_directives, emitAll_directives, List.append_eq_nil_iff,
      Directive.parse?_eq_nil_iff]

theorem step_heard (h : s.step table c t = .ok (s', rest)) : ∃ new, Heard s s' new := by
  obtain ⟨-, h⟩ | ⟨frame, outer, lexed, -, hlexed, rfl, -⟩ := step_cases h
  · unfold data at h
    rcases hfind : Delimiter.find s.verbatim 0 (c :: t) with ⟨before, found⟩
    have hopen : ∀ {value : List Char} {kind : TokenKind}, kind ≠ .commentStart →
        ∀ l ∈ textLexemes before ++ [(kind, value)], l.1 ≠ .commentStart := by
      intro value kind hkind l hl
      rcases List.mem_append.1 hl with hl | hl
      · exact kind_of_mem_textLexemes before l hl
      · rw [List.mem_singleton.1 hl]
        exact hkind
    simp only [hfind] at h
    split at h
    · cases h
      exact ⟨textLexemes before, heard_of_same (by simp [textLexemes]) (by simp)
        (kind_of_mem_textLexemes before)⟩
    · rename_i value _
      cases h
      exact ⟨textLexemes before ++ [(.variableStart, value)], heard_of_same (by simp [textLexemes])
        (by simp) (hopen (by decide))⟩
    · rename_i value _
      cases h
      exact ⟨textLexemes before ++ [(.blockStart, value)], heard_of_same (by simp [textLexemes])
        (by simp) (hopen (by decide))⟩
    · exact heard_comment h
  · exact ⟨_, heard_of_same (emitted_take ..) (take_directives ..)
      (List.forall_mem_singleton.2 hlexed.kind_ne_commentStart)⟩

theorem run_heard (h : run table s t = .ok s') : ∃ new, Heard s s' new := by
  fun_induction run table s t with
  | case1 s =>
    cases h
    exact ⟨[], by simp, by simp [silences], fun _ => rfl⟩
  | case2 s c t e hstep => cases h
  | case3 s c t s₁ rest hstep ih =>
    obtain ⟨new, hnew⟩ := step_heard hstep
    obtain ⟨more, hmore⟩ := ih h
    refine ⟨new ++ more, ?_, ?_, fun rest => ?_⟩
    · rw [hmore.emitted, hnew.emitted, List.append_assoc]
    · rw [hmore.directives, hnew.directives, hnew.append, Bool.or_eq_false_iff, and_assoc]
    · rw [List.append_assoc, hnew.append, hmore.append, hnew.append, Bool.or_assoc]

end Lexer

/-- **Whether a template silences anything** depends on its lexemes and not on its layout. -/
theorem tokenize_directives {table : OperatorTable} {source : List Char} {t : Template}
    (h : tokenize table source = .ok t) :
    t.directives = [] ↔ silences (meaningful t.stream.lexemes) = false := by
  obtain ⟨s, hrun, -, rfl⟩ := tokenize_eq_ok_iff.1 h
  obtain ⟨new, hnew⟩ := Lexer.run_heard hrun
  have hlexemes : (TokenStream.mk (s.emit .eof []).tokens false).lexemes = new ++ [(.eof, [])] := by
    change (s.emit .eof []).emitted = _
    rw [Lexer.emitted_emit, hnew.emitted]
    rfl
  rw [silences_meaningful, hlexemes, hnew.append, hnew.directives]
  simp [silences]

end TwigStyle
