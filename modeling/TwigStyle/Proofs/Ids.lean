import TwigStyle.Proofs.Gaps

/-!
# Reading back what was written

The text of an id is cut at its colons, and what stands before the first colon at its dots.  So the
parts of an id come back when its text is read, as long as no part holds a character at which the
text is cut, and none starts or ends with a blank.

Not all of an id is written: a token only after a sub id, and a column only after a line.
`ViolationId.written` is what is, and `parse_display` says that it is read back.
-/

namespace TwigStyle

namespace Text

variable {s t : List Char} {c : Char} {n : Nat} {p : Char → Bool}

/-! ### Blanks at the ends -/

/-- A text with no blank at its ends. -/
def Tight (t : List Char) : Prop :=
  (∀ c ∈ t.head?, isBlank c = false) ∧ ∀ c ∈ t.getLast?, isBlank c = false

theorem tight_of_solid (h : ∀ c ∈ t, isBlank c = false) : Tight t := by
  constructor
  · intro c hc
    exact h c (List.mem_of_mem_head? hc)
  · intro c hc
    exact h c (List.mem_of_mem_getLast? hc)

theorem tight_nil : Tight [] := tight_of_solid (by simp)

theorem Tight.append (hs : Tight s) (ht : Tight t) : Tight (s ++ t) := by
  constructor
  · intro c hc
    rw [List.head?_append] at hc
    cases s with
    | nil => exact ht.1 c hc
    | cons d s => exact hs.1 c hc
  · intro c hc
    rw [List.getLast?_append] at hc
    cases hlast : t.getLast? with
    | none =>
      rw [hlast] at hc
      exact hs.2 c hc
    | some d =>
      rw [hlast] at hc
      exact ht.2 c (by rw [hlast]; exact hc)

theorem dropWhile_blank (h : ∀ c ∈ t.head?, isBlank c = false) : t.dropWhile isBlank = t := by
  cases t with
  | nil => rfl
  | cons c t => exact List.dropWhile_cons_of_neg (by simp [h c rfl])

theorem trim_of_tight (h : Tight t) : trim t = t := by
  rw [trim, trimStart, dropWhile_blank h.1, trimEnd, dropWhile_blank, List.reverse_reverse]
  rw [List.head?_reverse]
  exact h.2

/-! ### Cutting -/

theorem splitWhere_of_solid (h : ∀ c ∈ t, p c = false) : splitWhere p t = [t] := by
  induction t with
  | nil => rfl
  | cons c t ih =>
    have hc : ¬p c = true := by simp [h c List.mem_cons_self]
    rw [splitWhere, if_neg hc, ih fun d hd => h d (List.mem_cons_of_mem c hd)]

theorem splitWhere_append (h : ∀ d ∈ s, p d = false) (hc : p c = true) :
    splitWhere p (s ++ c :: t) = s :: splitWhere p t := by
  induction s with
  | nil => rw [List.nil_append, splitWhere, if_pos hc]
  | cons d s ih =>
    have hd : ¬p d = true := by simp [h d List.mem_cons_self]
    rw [List.cons_append, splitWhere, if_neg hd, ih fun e he => h e (List.mem_cons_of_mem d he)]

theorem splitWhere_solid (t : List Char) : ∀ w ∈ splitWhere p t, ∀ c ∈ w, p c = false := by
  induction t with
  | nil => simp [splitWhere]
  | cons c t ih =>
    intro w hw d hd
    rw [splitWhere] at hw
    split at hw
    · rcases List.mem_cons.1 hw with rfl | hw
      · cases hd
      · exact ih w hw d hd
    · rename_i hc
      have hc : p c = false := by simpa using hc
      split at hw
      · rw [List.mem_singleton.1 hw] at hd
        rwa [List.mem_singleton.1 hd]
      · rename_i piece pieces hpieces
        rw [hpieces] at ih
        rcases List.mem_cons.1 hw with rfl | hw
        · rcases List.mem_cons.1 hd with rfl | hd
          · exact hc
          · exact ih piece List.mem_cons_self d hd
        · exact ih w (List.mem_cons_of_mem piece hw) d hd

theorem splitAtMost_of_notMem (h : c ∉ t) : splitAtMost c n t = [t] := by
  induction t with
  | nil => cases n <;> rfl
  | cons d t ih =>
    rw [List.mem_cons, not_or] at h
    cases n with
    | zero => rfl
    | succ n =>
      have hd : ¬(d == c) = true := by simpa using Ne.symm h.1
      rw [splitAtMost, if_neg hd, ih h.2]

theorem splitAtMost_append (h : c ∉ s) :
    splitAtMost c (n + 1) (s ++ c :: t) = s :: splitAtMost c n t := by
  induction s with
  | nil => rw [List.nil_append, splitAtMost, if_pos (by simp)]
  | cons d s ih =>
    rw [List.mem_cons, not_or] at h
    have hd : ¬(d == c) = true := by simpa using Ne.symm h.1
    rw [List.cons_append, splitAtMost, if_neg hd, ih h.2]

theorem headD_splitWhere (t : List Char) :
    (splitWhere p t).headD [] = t.takeWhile fun c => !p c := by
  induction t with
  | nil => rfl
  | cons c t ih =>
    rw [splitWhere]
    by_cases hc : p c = true
    · rw [if_pos hc, List.takeWhile_cons_of_neg (by simp [hc])]
      rfl
    · rw [if_neg hc, List.takeWhile_cons_of_pos (by simp [hc]), ← ih]
      cases splitWhere p t with
      | nil => rfl
      | cons piece pieces => rfl

theorem getElem?_zero_splitAtMost (c : Char) (n : Nat) (t : List Char) :
    (splitAtMost c (n + 1) t)[0]? = some (t.takeWhile (· != c)) := by
  induction t with
  | nil => rfl
  | cons d t ih =>
    rw [splitAtMost]
    by_cases hd : (d == c) = true
    · rw [if_pos hd, List.takeWhile_cons_of_neg (by simpa using hd)]
      rfl
    · rw [if_neg hd, List.takeWhile_cons_of_pos (by simpa using hd)]
      cases hpieces : splitAtMost c (n + 1) t with
      | nil =>
        rw [hpieces] at ih
        cases ih
      | cons piece pieces =>
        rw [hpieces] at ih
        cases ih
        rfl

theorem fields_eq_nil_iff : fields p t = [] ↔ ∀ c ∈ t, p c = true := by
  induction t with
  | nil => simp [fields, splitWhere]
  | cons c t ih =>
    rw [List.forall_mem_cons, ← ih]
    unfold fields
    rw [splitWhere]
    by_cases hc : p c = true
    · rw [if_pos hc]
      simp [hc]
    · rw [if_neg hc]
      cases splitWhere p t with
      | nil => simp [hc]
      | cons piece pieces => simp [hc]

/-! ### Counts -/

theorem isDigit_of_mem_natText (h : c ∈ natText n) : c.isDigit = true :=
  Nat.isDigit_of_mem_toDigits (by decide) (by decide) h

theorem not_isBlank_of_isDigit {a : Char} (h : a.isDigit = true) : isBlank a = false := by
  have := toNat_of_isDigit h
  cases hblank : isBlank a with
  | false => rfl
  | true =>
    simp only [isBlank, Bool.or_eq_true, Bool.and_eq_true, decide_eq_true_eq, beq_iff_eq] at hblank
    omega

theorem tight_natText (n : Nat) : Tight (natText n) :=
  tight_of_solid fun _ hc => not_isBlank_of_isDigit (isDigit_of_mem_natText hc)

theorem readNat?_natText (h : n ≤ maxCount) : readNat? (natText n) = some n := by
  have hdigits : readDigits? (natText n) = some n := by
    have hvalue : digitsValue (natText n) = n :=
      Nat.ofDigitChars_toDigits (by decide) (by decide)
    have hall : (natText n).all Char.isDigit = true :=
      List.all_eq_true.2 fun c hc => isDigit_of_mem_natText hc
    have hne : (natText n).isEmpty = false := by
      rw [List.isEmpty_eq_false_iff]
      exact Nat.toDigits_ne_nil
    simp only [readDigits?, hne, hall, hvalue, h, Bool.not_true, Bool.or_self,
      Bool.false_eq_true, if_false, if_true]
  unfold readNat?
  split
  · rename_i t heq
    -- A count does not start with a sign.
    have hplus : '+' ∈ natText n := by
      rw [heq]
      exact List.mem_cons_self
    exact absurd (isDigit_of_mem_natText hplus) (by decide)
  · exact hdigits

end Text

namespace ViolationId

variable {id : ViolationId} {part rule token : Option String} {line column : Option Nat}
  {sub : String}

/-- What can stand between the dots and colons of an id. -/
structure IsPart (s : String) : Prop where
  nonempty : s.toList ≠ []
  tight : Text.Tight s.toList
  colon : ':' ∉ s.toList

/-- The parts of an id that are written: a token only after a sub id, a column only after a line. -/
def written (id : ViolationId) : ViolationId :=
  { id with
    token := id.sub.bind fun _ => id.token
    column := id.line.bind fun _ => id.column }

/-- No part of the id is cut when its text is read. -/
structure Legible (id : ViolationId) : Prop where
  rule : ∀ s ∈ id.rule, IsPart s ∧ '.' ∉ s.toList
  sub : ∀ s ∈ id.sub, IsPart s ∧ '.' ∉ s.toList
  token : ∀ s ∈ id.token, IsPart s
  line : ∀ n ∈ id.line, n ≤ Text.maxCount
  column : ∀ n ∈ id.column, n ≤ Text.maxCount

/-- What is written of an id before its place. -/
def displayName (id : ViolationId) : List Char :=
  (id.rule.getD "").toList ++
    match id.sub with
    | none => []
    | some sub => '.' :: sub.toList ++
      match id.token with
      | none => []
      | some token => '.' :: token.toList

/-- What is written of the place of an id. -/
def displayPlace (id : ViolationId) : List Char :=
  match id.line with
  | none => []
  | some line => ':' :: Text.natText line ++
    match id.column with
    | none => []
    | some column => ':' :: Text.natText column

theorem display_eq (id : ViolationId) : id.display = id.displayName ++ id.displayPlace := rfl

theorem displayName_rule :
    displayName ⟨rule, none, token, line, column⟩ = (rule.getD "").toList := List.append_nil _

theorem displayName_sub : displayName ⟨rule, some sub, none, line, column⟩ =
      (rule.getD "").toList ++ '.' :: sub.toList := by
  simp [displayName]

theorem displayName_token {token : String} :
    displayName ⟨rule, some sub, some token, line, column⟩ =
      (rule.getD "").toList ++ '.' :: (sub.toList ++ '.' :: token.toList) := rfl

theorem namePart?_getD (h : ∀ s ∈ part, IsPart s) :
    namePart? (some (part.getD "").toList) = part := by
  cases part with
  | none => rfl
  | some s =>
    have hs := h s rfl
    have htrim : Text.trim s.toList = s.toList := Text.trim_of_tight hs.tight
    simp only [namePart?, Option.getD_some, Option.map_some, htrim]
    split
    · rename_i heq
      cases heq
    · rename_i heq
      exact absurd (Option.some.inj heq) hs.nonempty
    · rename_i t _ heq
      rw [← Option.some.inj heq, String.ofList_toList]

theorem countPart?_natText {n : Nat} (h : n ≤ Text.maxCount) :
    countPart? (some (Text.natText n)) = some n := by
  rw [countPart?, Option.bind_some, Text.trim_of_tight (Text.tight_natText n),
    Text.readNat?_natText h]

theorem IsPart.getD (h : ∀ s ∈ part, IsPart s) :
    Text.Tight (part.getD "").toList ∧ ':' ∉ (part.getD "").toList := by
  cases part with
  | none => exact ⟨Text.tight_nil, List.not_mem_nil⟩
  | some s => exact ⟨(h s rfl).tight, (h s rfl).colon⟩

theorem Legible.dot_notMem (h : id.Legible) : '.' ∉ (id.rule.getD "").toList := by
  cases hrule : id.rule with
  | none => exact List.not_mem_nil
  | some s => exact (h.rule s hrule).2

theorem Legible.displayName (h : id.written.Legible) :
    Text.Tight id.displayName ∧ ':' ∉ id.displayName := by
  obtain ⟨rule, sub, token, line, column⟩ := id
  have hdot : Text.Tight ['.'] := Text.tight_of_solid (by simp; decide)
  obtain ⟨hrule, hcolon⟩ : Text.Tight (rule.getD "").toList ∧ ':' ∉ (rule.getD "").toList :=
    IsPart.getD fun s hs => (h.rule s hs).1
  cases sub with
  | none =>
    rw [displayName_rule]
    exact ⟨hrule, hcolon⟩
  | some sub =>
    have hsub := (h.sub sub rfl).1
    cases token with
    | none =>
      rw [displayName_sub]
      constructor
      · exact hrule.append (hdot.append hsub.tight)
      · simpa using ⟨hcolon, hsub.colon⟩
    | some token =>
      have htoken := h.token token rfl
      rw [displayName_token]
      constructor
      · exact hrule.append (hdot.append (hsub.tight.append (hdot.append htoken.tight)))
      · simpa using ⟨hcolon, hsub.colon, htoken.colon⟩

theorem Legible.splitAtMost (h : id.written.Legible) :
    namePart? (Text.splitAtMost '.' 2 id.displayName)[0]? = id.rule ∧
      namePart? (Text.splitAtMost '.' 2 id.displayName)[1]? = id.sub ∧
      namePart? (Text.splitAtMost '.' 2 id.displayName)[2]? = id.written.token := by
  obtain ⟨rule, sub, token, line, column⟩ := id
  have hdot : '.' ∉ (rule.getD "").toList := h.dot_notMem
  have hrule : namePart? (some (rule.getD "").toList) = rule :=
    namePart?_getD fun s hs => (h.rule s hs).1
  cases sub with
  | none =>
    rw [displayName_rule, Text.splitAtMost_of_notMem hdot]
    exact ⟨hrule, rfl, rfl⟩
  | some sub =>
    have hsubdot := (h.sub sub rfl).2
    have hsub : namePart? (some sub.toList) = some sub :=
      @namePart?_getD (some sub) fun s hs => (h.sub s hs).1
    cases token with
    | none =>
      rw [displayName_sub, Text.splitAtMost_append hdot, Text.splitAtMost_of_notMem hsubdot]
      exact ⟨hrule, hsub, rfl⟩
    | some token =>
      have htoken : namePart? (some token.toList) = some token :=
        @namePart?_getD (some token) h.token
      rw [displayName_token, Text.splitAtMost_append hdot, Text.splitAtMost_append hsubdot,
        Text.splitAtMost]
      exact ⟨hrule, hsub, htoken⟩

theorem colon_notMem_natText (n : Nat) : ∀ c ∈ Text.natText n, (c == ':') = false := by
  intro c hc
  rw [beq_eq_false_iff_ne]
  rintro rfl
  exact absurd (Text.isDigit_of_mem_natText hc) (by decide)

theorem Legible.splitWhere (h : id.written.Legible) :
    (Text.splitWhere (· == ':') id.display).headD [] = id.displayName ∧
      countPart? (Text.splitWhere (· == ':') id.display)[1]? = id.line ∧
      countPart? (Text.splitWhere (· == ':') id.display)[2]? = id.written.column := by
  have hname : ∀ c ∈ id.displayName, (c == ':') = false := by
    intro c hc
    rw [beq_eq_false_iff_ne]
    rintro rfl
    exact h.displayName.2 hc
  rw [display_eq, displayPlace]
  cases hline : id.line with
  | none =>
    have hcolumn : id.written.column = none := by rw [written, hline]; rfl
    rw [List.append_nil, Text.splitWhere_of_solid hname, hcolumn]
    exact ⟨rfl, rfl, rfl⟩
  | some line =>
    have hcount := countPart?_natText (h.line line hline)
    have hwritten : id.written.column = id.column := by rw [written, hline]; rfl
    cases hcolumn : id.column with
    | none =>
      rw [hwritten, hcolumn]
      dsimp only
      rw [List.append_nil, Text.splitWhere_append hname rfl,
        Text.splitWhere_of_solid (colon_notMem_natText line)]
      exact ⟨rfl, hcount, rfl⟩
    | some column =>
      have hcount' := countPart?_natText (h.column column (hwritten.trans hcolumn))
      rw [hwritten, hcolumn]
      dsimp only
      rw [List.cons_append, Text.splitWhere_append hname rfl,
        Text.splitWhere_append (colon_notMem_natText line) rfl,
        Text.splitWhere_of_solid (colon_notMem_natText column)]
      exact ⟨rfl, hcount, hcount'⟩

theorem tight_displayPlace (id : ViolationId) : Text.Tight id.displayPlace := by
  have hcolon : Text.Tight [':'] := Text.tight_of_solid (by simp; decide)
  unfold displayPlace
  split
  · exact Text.tight_nil
  · rename_i line _
    apply (hcolon.append (Text.tight_natText line)).append
    split
    · exact Text.tight_nil
    · exact hcolon.append (Text.tight_natText _)

/-- **Reading the text of an id gives what was written of it.** -/
theorem parse_display (h : id.written.Legible) (defaultLine : Option Nat) :
    parse id.display defaultLine = { id.written with line := id.line.or defaultLine } := by
  have htrim : Text.trim id.display = id.display :=
    Text.trim_of_tight (h.displayName.1.append id.tight_displayPlace)
  obtain ⟨hhead, hline, hcolumn⟩ := h.splitWhere
  obtain ⟨hrule, hsub, htoken⟩ := h.splitAtMost
  simp only [parse, htrim, hhead, hline, hcolumn, hrule, hsub, htoken]
  rfl

end ViolationId

end TwigStyle
