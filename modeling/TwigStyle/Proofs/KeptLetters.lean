import TwigStyle.Proofs.Conventions

/-!
# What a convention keeps of a name

In a name of ASCII a convention moves underscores and capitals only.  The leading underscores stay,
and the letters and digits are the same ones in the same order (`letters`): the words of a name, put
together again, are its letters (`flatten_words`), and no convention writes anything else of them
(`letters_join`).

Snake case has a form that can be seen without reading any words (`IsSnake`).  It writes nothing
else, and it leaves alone just the names that have this form.
-/

namespace TwigStyle

namespace NamingCase

variable {c : Char} {name t w : List Char} {ws : List (List Char)}

/-- The characters of a name in small letters, its underscores left out. -/
def letters (name : List Char) : List Char := (name.filter (· != '_')).map Char.toLower

/-- A name in the form of snake case.  How many underscores it starts with is free. -/
structure IsSnake (name : List Char) : Prop where
  noCapital : ∀ c ∈ name, c.isUpper = false
  noPair : ∀ u v, name.dropWhile (· == '_') ≠ u ++ '_' :: '_' :: v
  noTrailing : (name.dropWhile (· == '_')).getLast? ≠ some '_'

/-! ### Letters -/

theorem letters_append (u v : List Char) : letters (u ++ v) = letters u ++ letters v := by
  simp [letters]

theorem letters_cons_underscore (t : List Char) : letters ('_' :: t) = letters t := rfl

theorem letters_cons (hc : c ≠ '_') (t : List Char) :
    letters (c :: t) = c.toLower :: letters t := by
  simp [letters, hc]

theorem letters_underscores {us : List Char} (h : ∀ c ∈ us, c = '_') : letters us = [] := by
  rw [letters, List.map_eq_nil_iff, List.filter_eq_nil_iff]
  intro c hc
  simp [h c hc]

/-- A character that a name of ASCII has in its words: no underscore, and no capital. -/
def Small (c : Char) : Prop := c.toNat < 0x80 ∧ c ≠ '_' ∧ c.isUpper = false

instance (c : Char) : Decidable (Small c) := inferInstanceAs (Decidable (_ ∧ _ ∧ _))

theorem Small.toLower_eq (h : Small c) : c.toLower = c := by
  obtain ⟨hascii, -, hupper⟩ := h
  revert hascii hupper
  apply Text.ascii_induction
  decide

theorem small_toLower (hascii : c.toNat < 0x80) : c ≠ '_' → Small c.toLower := by
  revert hascii
  apply Text.ascii_induction
  decide

theorem toUpper_eq (hascii : c.toNat < 0x80) : Text.toUpper c = [c.toUpper] :=
  if_pos hascii

theorem toLower_eq (hascii : c.toNat < 0x80) : Text.toLower c = [c.toLower] :=
  if_pos hascii

theorem Small.letters_toUpper (h : Small c) : letters (Text.toUpper c) = [c] := by
  obtain ⟨hascii, hsmall⟩ := h
  rw [toUpper_eq hascii]
  revert hascii hsmall
  apply Text.ascii_induction
  decide

theorem letters_of_small (h : ∀ y ∈ w, Small y) : letters w = w := by
  induction w with
  | nil => rfl
  | cons c w ih =>
    have hc := h c List.mem_cons_self
    rw [letters_cons hc.2.1, hc.toLower_eq, ih fun y hy => h y (List.mem_cons_of_mem c hy)]

theorem letters_capitalize (h : ∀ y ∈ w, Small y) : letters (capitalize w) = w := by
  cases w with
  | nil => rfl
  | cons c w =>
    rw [capitalize, letters_append, (h c List.mem_cons_self).letters_toUpper,
      letters_of_small fun y hy => h y (List.mem_cons_of_mem c hy)]
    rfl

/-! ### Words -/

theorem small_of_mem_words (hascii : ∀ c ∈ name, c.toNat < 0x80) (hw : w ∈ words name) :
    ∀ y ∈ w, Small y := by
  refine (mem_wordsFrom ?_ (fun y hy => absurd hy List.not_mem_nil) none hw).2
  intro c hc hne y hy
  rw [toLower_eq (hascii c hc)] at hy
  rw [List.mem_singleton.1 hy]
  exact small_toLower (hascii c hc) hne

/-- Where a word ends does not matter for the letters: they are in the words one after the other. -/
theorem flatten_wordsFrom (hascii : ∀ c ∈ t, c.toNat < 0x80) (current : List Char)
    (p : Option Char) : (wordsFrom current p t).flatten = current ++ letters t := by
  induction t generalizing current p with
  | nil =>
    unfold wordsFrom
    cases current <;> simp [letters]
  | cons c t ih =>
    have htail : ∀ c ∈ t, c.toNat < 0x80 := fun d hd => hascii d (List.mem_cons_of_mem c hd)
    unfold wordsFrom
    split
    next hc =>
      rw [beq_iff_eq.1 hc, letters_cons_underscore]
      split
      next hnone => rw [ih htail, List.isEmpty_iff.1 hnone]
      next => rw [List.flatten_cons, ih htail, List.nil_append]
    next hc =>
      have hlower := toLower_eq (hascii c List.mem_cons_self)
      rw [letters_cons (by simpa using hc)]
      split
      · rw [List.flatten_cons, ih htail, hlower, List.singleton_append]
      · rw [ih htail, hlower, List.append_assoc, List.singleton_append]

/-- The words of a name, put together, are its letters. -/
theorem flatten_words (hascii : ∀ c ∈ name, c.toNat < 0x80) : (words name).flatten = letters name :=
  flatten_wordsFrom hascii [] none

theorem letters_join_snake (h : ∀ w ∈ ws, ∀ y ∈ w, Small y) :
    letters (join snake ws) = ws.flatten := by
  induction ws with
  | nil => rfl
  | cons w ws ih =>
    have hw := letters_of_small (h w List.mem_cons_self)
    have hws := ih fun v hv => h v (List.mem_cons_of_mem w hv)
    cases ws with
    | nil => simpa [join, List.intercalate] using hw
    | cons v ws =>
      rw [join, intercalate_cons (List.cons_ne_nil v ws), letters_append, hw,
        letters_cons_underscore, List.flatten_cons]
      exact congrArg (w ++ ·) hws

theorem letters_flatMap_capitalize (h : ∀ w ∈ ws, ∀ y ∈ w, Small y) :
    letters (ws.flatMap capitalize) = ws.flatten := by
  induction ws with
  | nil => rfl
  | cons w ws ih =>
    rw [List.flatMap_cons, letters_append, letters_capitalize (h w List.mem_cons_self),
      ih fun v hv => h v (List.mem_cons_of_mem w hv), List.flatten_cons]

/-- A convention writes the letters of the words, whatever it puts between them. -/
theorem letters_join (convention : NamingCase) (h : ∀ w ∈ ws, ∀ y ∈ w, Small y) :
    letters (convention.join ws) = ws.flatten := by
  cases convention with
  | snake => exact letters_join_snake h
  | pascal => exact letters_flatMap_capitalize h
  | camel =>
    cases ws with
    | nil => rfl
    | cons w ws =>
      rw [join, letters_append, letters_of_small (h w List.mem_cons_self),
        letters_flatMap_capitalize fun v hv => h v (List.mem_cons_of_mem w hv), List.flatten_cons]

/-! ### Leading underscores -/

theorem head?_join_words (convention : NamingCase) (name : List Char) :
    ∀ c ∈ (convention.join (words name)).head?, (c == '_') = false := by
  intro c hc
  obtain ⟨t, heq⟩ := List.head?_eq_some_iff.1 hc
  simpa using ((convention.spells_join_words name).start c t heq).1

theorem takeWhile_convert (convention : NamingCase) (name : List Char) :
    (convention.convert name).takeWhile (· == '_') = name.takeWhile (· == '_') := by
  rw [convert, List.takeWhile_append_of_pos fun c hc =>
      beq_iff_eq.2 (eq_underscore_of_mem_takeWhile hc)]
  have hhead := head?_join_words convention (name.dropWhile (· == '_'))
  cases hjoin : convention.join (words (name.dropWhile (· == '_'))) with
  | nil => exact List.append_nil _
  | cons c t => simp [hhead c (by rw [hjoin]; rfl)]

theorem dropWhile_convert (convention : NamingCase) (name : List Char) :
    (convention.convert name).dropWhile (· == '_') =
      convention.join (words (name.dropWhile (· == '_'))) := by
  have hcut : (convention.convert name).takeWhile (· == '_') ++
      (convention.convert name).dropWhile (· == '_') = convention.convert name :=
    List.takeWhile_append_dropWhile
  rw [takeWhile_convert] at hcut
  exact List.append_cancel_left hcut

theorem letters_convert (convention : NamingCase) (hascii : ∀ c ∈ name, c.toNat < 0x80) :
    letters (convention.convert name) = letters name := by
  have hbody : ∀ c ∈ name.dropWhile (· == '_'), c.toNat < 0x80 :=
    fun c hc => hascii c ((List.dropWhile_suffix _).subset hc)
  have hus : letters (name.takeWhile (· == '_')) = [] :=
    letters_underscores fun c hc => eq_underscore_of_mem_takeWhile hc
  calc letters (convention.convert name)
      = letters (convention.join (words (name.dropWhile (· == '_')))) := by
        rw [convert, letters_append, hus, List.nil_append]
    _ = letters (name.dropWhile (· == '_')) := by
        rw [letters_join convention fun w hw => small_of_mem_words hbody hw, flatten_words hbody]
    _ = letters (name.takeWhile (· == '_') ++ name.dropWhile (· == '_')) := by
        rw [letters_append, hus, List.nil_append]
    _ = letters name := by rw [List.takeWhile_append_dropWhile]

/-! ### The form of snake case -/

theorem legible_snake_iff :
    Legible snake t ↔ (∀ u v, t ≠ u ++ '_' :: '_' :: v) ∧ t.getLast? ≠ some '_' := by
  constructor
  · intro h
    refine ⟨?_, ?_⟩
    · intro u v heq
      simpa using h u ('_' :: v) heq
    · intro hlast
      obtain ⟨u, rfl⟩ := List.getLast?_eq_some_iff.1 hlast
      simpa using h u [] rfl
  · rintro ⟨hpair, hlast⟩ u v rfl
    cases v with
    | nil => simp at hlast
    | cons c v =>
      have hc : c ≠ '_' := fun heq => hpair u v (by rw [heq])
      simpa using hc

theorem isSnake_convert (hascii : ∀ c ∈ name, c.toNat < 0x80) : IsSnake (convert snake name) := by
  have hbody : ∀ c ∈ name.dropWhile (· == '_'), c.toNat < 0x80 :=
    fun c hc => hascii c ((List.dropWhile_suffix _).subset hc)
  have hlegible : Legible snake ((convert snake name).dropWhile (· == '_')) := by
    rw [dropWhile_convert]
    exact (spells_join_words snake _).legible
  refine ⟨?_, (legible_snake_iff.1 hlegible).1, (legible_snake_iff.1 hlegible).2⟩
  intro c hc
  rcases List.mem_append.1 hc with hc | hc
  · rw [eq_underscore_of_mem_takeWhile hc]
    rfl
  · rcases mem_join_snake hc with rfl | ⟨w, hw, hcw⟩
    · rfl
    · exact (small_of_mem_words hbody hw c hcw).2.2

theorem convert_of_isSnake (hascii : ∀ c ∈ name, c.toNat < 0x80) (h : IsSnake name) :
    convert snake name = name := by
  have hmem : ∀ c ∈ name.dropWhile (· == '_'), c ∈ name :=
    fun c hc => (List.dropWhile_suffix _).subset hc
  have hlower : ∀ c ∈ name.dropWhile (· == '_'), Text.toLower c = [c] := by
    intro c hc
    by_cases hne : c = '_'
    · rw [hne]
      decide
    · have hsmall : Small c := ⟨hascii c (hmem c hc), hne, h.noCapital c (hmem c hc)⟩
      rw [toLower_eq hsmall.1, hsmall.toLower_eq]
  have hspells : Spells snake (name.dropWhile (· == '_')) := by
    refine ⟨legible_snake_iff.2 ⟨h.noPair, h.noTrailing⟩, hlower, ?_⟩
    intro c t heq
    have hhead := List.head?_dropWhile_not (· == '_') name
    rw [heq] at hhead
    exact ⟨by simpa using hhead, hlower c (by rw [heq]; exact List.mem_cons_self)⟩
  have hbody : join snake (words (name.dropWhile (· == '_'))) = name.dropWhile (· == '_') := by
    rw [join_words_eq_iff hspells]
    intro u p c v heq
    have hc : c ∈ name := hmem c (by rw [heq]; simp)
    have hupper : Text.isUpper c = false := by
      rw [Text.isUpper, if_pos (hascii c hc)]
      exact h.noCapital c hc
    change (Text.isUpper c && startsWord (some p) v.head?) = false
    rw [hupper]
    rfl
  rw [convert, hbody, List.takeWhile_append_dropWhile]

/-- What a convention makes of a name of ASCII: the leading underscores and the letters stay, and
    snake case writes its own form and leaves alone just the names that have it. -/
theorem convert_keeps_letters (convention : NamingCase) {name : List Char}
    (hascii : ∀ c ∈ name, c.toNat < 0x80) :
    (convention.convert name).takeWhile (· == '_') = name.takeWhile (· == '_') ∧
      letters (convention.convert name) = letters name ∧
      IsSnake (convert snake name) ∧
      (convert snake name = name ↔ IsSnake name) := by
  refine ⟨takeWhile_convert convention name, letters_convert convention hascii,
    isSnake_convert hascii, ?_, convert_of_isSnake hascii⟩
  intro heq
  rw [← heq]
  exact isSnake_convert hascii

/-- Words that end at digits, at capitals and at doubled and trailing underscores. -/
theorem convert_keeps_letters_mixed :
    (∀ c ∈ "__HTMLParser2B__x_".toList, c.toNat < 0x80) ∧
      (convert pascal "__HTMLParser2B__x_".toList).takeWhile (· == '_') = ['_', '_'] ∧
      letters (convert pascal "__HTMLParser2B__x_".toList) = "htmlparser2bx".toList ∧
      IsSnake "__html_parser2_b_x".toList ∧
      ¬ IsSnake "__HTMLParser2B__x_".toList := by
  have hascii : ∀ c ∈ "__HTMLParser2B__x_".toList, c.toNat < 0x80 := by
    simp
  obtain ⟨hus, hletters, hform, hiff⟩ := convert_keeps_letters pascal hascii
  have hsnake : convert snake "__HTMLParser2B__x_".toList = "__html_parser2_b_x".toList := by
    decide +kernel
  rw [hsnake] at hform hiff
  exact ⟨hascii, hus, hletters, hform, fun h => absurd (hiff.2 h) (by decide)⟩

end NamingCase

end TwigStyle
