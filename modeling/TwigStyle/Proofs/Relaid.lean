import TwigStyle.Proofs.Delimiters
import TwigStyle.Proofs.Joints

/-!
# Template text and comments with other layout

Outside of code a change of layout leaves the words alone: layout stays layout, and where there was
none there is none.  `Relaid` is this relation between two texts.  The next delimiter is found in
both at the same place (`find_relaid`), and so is the end of a comment (`commentBody?_relaid`).
-/

namespace TwigStyle

variable {c : Char} {stop stop' : List Char}

/-- Two texts with the same words: layout may differ from layout. -/
inductive Relaid : List Char → List Char → Prop
  | nil : Relaid [] []
  | solid {c : Char} {t t' : List Char} (hc : Text.isLayout c = false) (h : Relaid t t') :
    Relaid (c :: t) (c :: t')
  | gap {g g' t t' : List Char} (hg : IsGap g) (hg' : IsGap g') (hne : g ≠ []) (hne' : g' ≠ [])
      (h : Relaid t t') :
    Relaid (g ++ t) (g' ++ t')

theorem Relaid.symm {t t' : List Char} (h : Relaid t t') : Relaid t' t := by
  induction h with
  | nil => exact .nil
  | solid hc _ ih => exact .solid hc ih
  | gap hg hg' hne hne' _ ih => exact .gap hg' hg hne' hne ih

/-- The first two characters of a text, up to layout. -/
def start (t : List Char) : List Char := (t.takeWhile (!Text.isLayout ·)).take 2

theorem start_cons_solid (hc : Text.isLayout c = false) (t : List Char) :
    start (c :: t) = c :: (start t).take 1 := by
  simp [start, hc, List.take_take]

theorem start_of_layout (hc : Text.isLayout c = true) (t : List Char) : start (c :: t) = [] := by
  simp [start, hc]

theorem start_prefix (t : List Char) : start t <+: t :=
  (List.take_prefix 2 _).trans (List.takeWhile_prefix _)

theorem IsGap.start {g : List Char} (hg : IsGap g) (hne : g ≠ []) (t : List Char) :
    start (g ++ t) = [] := by
  cases g with
  | nil => exact absurd rfl hne
  | cons c g => exact start_of_layout (hg c List.mem_cons_self) _

theorem Relaid.start_eq {b b' : List Char} (h : Relaid b b') (hstop : start stop = start stop') :
    start (b ++ stop) = start (b' ++ stop') := by
  induction h with
  | nil => exact hstop
  | solid hc _ ih => rw [List.cons_append, List.cons_append, start_cons_solid hc,
      start_cons_solid hc, ih]
  | gap hg hg' hne hne' _ _ => rw [List.append_assoc, List.append_assoc, hg.start hne,
      hg'.start hne']

/-! ### Delimiters -/

namespace Delimiter

variable {c : Char} {t t' : List Char}

theorem trimMarker_start {d : Char} (hd : Text.isLayout d = false) (t : List Char) :
    (trimMarker t).1 = ((start (d :: t)).drop 1).filter isTrimMarker := by
  rw [start_cons_solid hd, List.drop_succ_cons, List.drop_zero]
  cases t with
  | nil => rfl
  | cons e t =>
    cases he : Text.isLayout e with
    | true =>
      have : isTrimMarker e = false := by
        cases hm : isTrimMarker e with
        | false => rfl
        | true =>
          rw [isLayout_of_isTrimMarker hm] at he
          cases he
      simp [trimMarker, this, start_of_layout he]
    | false =>
      rw [start_cons_solid he]
      cases hm : isTrimMarker e <;> simp [trimMarker, hm]

theorem at?_start (c : Char) (t : List Char) :
    (at? (c :: t)).map (fun d => (d.1, d.2.1)) =
      if c = '\x7b' then (start t).head?.bind fun d => (construct? d).map fun k =>
        (k, '\x7b' :: d :: ((start t).drop 1).filter isTrimMarker)
      else none := by
  by_cases hc : c = '\x7b'
  · subst hc
    rw [if_pos rfl]
    cases t with
    | nil => rfl
    | cons d t =>
      cases hd : Text.isLayout d with
      | true =>
        have : construct? d = none := by
          cases hk : construct? d with
          | none => rfl
          | some k =>
            rw [isLayout_of_construct? hk] at hd
            cases hd
        simp [at?, this, start_of_layout hd]
      | false =>
        rw [← trimMarker_start hd, start_cons_solid hd]
        cases hk : construct? d <;> simp [at?, hk]
  · rw [if_neg hc]
    have : at? (c :: t) = none := by
      unfold at?
      split
      · rename_i h
        exact absurd (List.cons.inj h).1 hc
      · rfl
    rw [this]
    rfl

theorem at?_congr (h : start t = start t') :
    (at? (c :: t)).map (fun d => (d.1, d.2.1)) = (at? (c :: t')).map (fun d => (d.1, d.2.1)) := by
  rw [at?_start, at?_start, h]

theorem at?_of_ne (hc : c ≠ '\x7b') (t : List Char) : at? (c :: t) = none := by
  have h := at?_start c t
  rw [if_neg hc] at h
  exact Option.map_eq_none_iff.1 h

theorem commentEndAt?_isSome (c : Char) (t : List Char) :
    (commentEndAt? (c :: t)).isSome = true ↔
      c = '#' ∧ (start t).head? = some '\x7d' ∨ isTrimMarker c = true ∧ start t = ['#', '\x7d'] := by
  have hbrace : ∀ t, start ('\x7d' :: t) = '\x7d' :: (start t).take 1 := start_cons_solid rfl
  have hhash : ∀ t, start ('#' :: t) = '#' :: (start t).take 1 := start_cons_solid rfl
  unfold commentEndAt?
  split
  · rename_i u h
    obtain ⟨rfl, rfl⟩ := List.cons.inj h
    simp [hbrace]
  · rename_i m u hne h
    obtain ⟨rfl, rfl⟩ := List.cons.inj h
    cases hm : isTrimMarker c <;> simp [hhash, hbrace]
  · rename_i h₁ h₂
    simp only [Option.isSome_none, Bool.false_eq_true, false_iff]
    rintro (⟨rfl, hhead⟩ | ⟨-, hstart⟩)
    · obtain ⟨u, hu⟩ := start_prefix t
      obtain ⟨v, hv⟩ := List.head?_eq_some_iff.1 hhead
      rw [hv] at hu
      exact h₁ (v ++ u) (by rw [← hu]; rfl)
    · obtain ⟨u, hu⟩ := start_prefix t
      rw [hstart] at hu
      exact h₂ c u (by rw [← hu]; rfl)

theorem commentEndAt?_congr (h : start t = start t') (hnone : commentEndAt? (c :: t) = none) :
    commentEndAt? (c :: t') = none := by
  have hiff := commentEndAt?_isSome c t
  rw [h, ← commentEndAt?_isSome, hnone] at hiff
  simpa using hiff

end Delimiter

/-! ### Verbatim bodies -/

/-- Where two texts go on as they like: behind a brace that opens a delimiter, or at their ends. -/
structure Stops (stop stop' : List Char) : Prop where
  start_eq : start stop = start stop'
  kind : (∃ r r', stop = '\x7b' :: r ∧ stop' = '\x7b' :: r') ∨ IsGap stop ∧ IsGap stop'

theorem Stops.symm (h : Stops stop stop') : Stops stop' stop := by
  refine ⟨h.start_eq.symm, ?_⟩
  rcases h.kind with ⟨r, r', hr, hr'⟩ | ⟨hg, hg'⟩
  · exact .inl ⟨r', r, hr', hr⟩
  · exact .inr ⟨hg', hg⟩

/-- Two texts that go the same way up to their stops. -/
def Along (stop stop' t t' : List Char) : Prop :=
  (∃ b b', Relaid b b' ∧ t = b ++ stop ∧ t' = b' ++ stop') ∨ t = [] ∧ t' = []

section Along

variable {stop stop' t t' : List Char}

theorem Along.symm (h : Along stop stop' t t') : Along stop' stop t' t := by
  rcases h with ⟨b, b', hb, rfl, rfl⟩ | ⟨rfl, rfl⟩
  · exact .inl ⟨b', b, hb.symm, rfl, rfl⟩
  · exact .inr ⟨rfl, rfl⟩

theorem Along.cons (hstop : Stops stop stop') {a : Char} (ha : Text.isLayout a = false)
    (hbrace : a ≠ '\x7b') (h : Along stop stop' (a :: t) t') :
    ∃ u', t' = a :: u' ∧ Along stop stop' t u' := by
  rcases h with ⟨b, b', hb, ht, rfl⟩ | ⟨ht, -⟩
  · cases hb with
    | nil =>
      rcases hstop.kind with ⟨r, r', hr, -⟩ | ⟨hg, -⟩
      · rw [List.nil_append, hr] at ht
        exact absurd (List.cons.inj ht).1 hbrace
      · rw [List.nil_append] at ht
        have := hg a (by simp [← ht])
        rw [ha] at this
        cases this
    | solid hc h =>
      obtain ⟨rfl, rfl⟩ := List.cons.inj ht
      exact ⟨_, rfl, .inl ⟨_, _, h, rfl, rfl⟩⟩
    | gap hg hg' hne hne' h =>
      rw [List.append_assoc] at ht
      exact absurd (hg.eq_nil ht.symm ha) hne
  · cases ht

theorem Along.word (hstop : Stops stop stop') {w : List Char}
    (hw : ∀ a ∈ w, Text.isLayout a = false ∧ a ≠ '\x7b') (h : Along stop stop' (w ++ t) t') :
    ∃ u', t' = w ++ u' ∧ Along stop stop' t u' := by
  induction w generalizing t' with
  | nil => exact ⟨t', rfl, h⟩
  | cons a w ih =>
    obtain ⟨ha, hbrace⟩ := hw a List.mem_cons_self
    obtain ⟨u', rfl, h'⟩ := h.cons hstop ha hbrace
    obtain ⟨v', rfl, h''⟩ := ih (fun b hb => hw b (List.mem_cons_of_mem a hb)) h'
    exact ⟨v', rfl, h''⟩

theorem dropBlanks_gap {g : List Char} (hg : IsGap g) (t : List Char) :
    (g ++ t).dropWhile Text.isBlank = t.dropWhile Text.isBlank :=
  List.dropWhile_append_of_pos fun a ha => isBlank_of_isLayout (hg a ha)

theorem Along.dropBlanks (hstop : Stops stop stop') (h : Along stop stop' t t') :
    Along stop stop' (t.dropWhile Text.isBlank) (t'.dropWhile Text.isBlank) := by
  rcases h with ⟨b, b', hb, rfl, rfl⟩ | ⟨rfl, rfl⟩
  · induction hb with
    | nil =>
      rcases hstop.kind with ⟨r, r', rfl, rfl⟩ | ⟨hg, hg'⟩
      · exact .inl ⟨[], [], .nil, rfl, rfl⟩
      · have h := dropBlanks_gap hg []
        have h' := dropBlanks_gap hg' []
        rw [List.append_nil] at h h'
        exact .inr ⟨h, h'⟩
    | @solid c t t' hc h ih =>
      rw [List.cons_append, List.cons_append]
      cases hblank : Text.isBlank c with
      | true => rwa [List.dropWhile_cons_of_pos hblank, List.dropWhile_cons_of_pos hblank]
      | false =>
        rw [List.dropWhile_cons_of_neg (by simp [hblank]),
          List.dropWhile_cons_of_neg (by simp [hblank])]
        exact .inl ⟨c :: t, c :: t', .solid hc h, rfl, rfl⟩
    | gap hg hg' _ _ _ ih =>
      rwa [List.append_assoc, List.append_assoc, dropBlanks_gap hg, dropBlanks_gap hg']
  · exact .inr ⟨rfl, rfl⟩

theorem Along.trimMarker (hstop : Stops stop stop') (h : Along stop stop' t t') :
    Along stop stop' (Delimiter.trimMarker t).2 (Delimiter.trimMarker t').2 := by
  -- A marker at the start of one text is a marker at the start of the other.
  have hmarker : ∀ {stop stop' t t'}, Stops stop stop' → Along stop stop' t t' →
      ∀ a u, t = a :: u → Delimiter.isTrimMarker a = true →
        ∃ u', t' = a :: u' ∧ Along stop stop' u u' := by
    rintro stop stop' t t' hstop h a u rfl ha
    refine h.cons hstop (Delimiter.isLayout_of_isTrimMarker ha) ?_
    rintro rfl
    cases ha
  have hnone : ∀ {t}, (∀ a u, t = a :: u → Delimiter.isTrimMarker a = true → False) →
      (Delimiter.trimMarker t).2 = t := by
    intro t ht
    cases t with
    | nil => rfl
    | cons a u =>
      have := ht a u rfl
      rw [Delimiter.trimMarker, if_neg this]
  by_cases ht : ∃ a u, t = a :: u ∧ Delimiter.isTrimMarker a = true
  · obtain ⟨a, u, rfl, ha⟩ := ht
    obtain ⟨u', rfl, hu⟩ := hmarker hstop h a u rfl ha
    simpa [Delimiter.trimMarker, ha] using hu
  · rw [hnone fun a u hu ha => ht ⟨a, u, hu, ha⟩, hnone]
    · exact h
    · intro a u hu ha
      obtain ⟨u', hu', -⟩ := hmarker hstop.symm h.symm a u hu ha
      exact ht ⟨a, u', hu', ha⟩

end Along

namespace Delimiter

variable {stop stop' b b' body g rest t value : List Char} {c : Char}

theorem endsVerbatim_along (hstop : Stops stop stop') {t' : List Char} (h : Along stop stop' t t')
    (hv : endsVerbatim (c :: t) = true) : endsVerbatim (c :: t') = true := by
  obtain ⟨t₁, w, t₂, t₃, ht, hw, hname, hend⟩ := endsVerbatim_iff.1 hv
  obtain ⟨rfl, rfl⟩ := List.cons.inj ht
  obtain ⟨t₁', rfl, h₁⟩ := h.cons hstop rfl (by decide)
  have h₂ := (h₁.trimMarker hstop).dropBlanks hstop
  rw [hname] at h₂
  have hsolid : ∀ a ∈ w, Text.isLayout a = false ∧ a ≠ '\x7b' := by
    rcases hw with rfl | rfl <;> simp [Text.isLayout]
  obtain ⟨t₂', hname', h₃⟩ := h₂.word hstop hsolid
  have h₄ := (h₃.dropBlanks hstop).trimMarker hstop
  rw [hend] at h₄
  obtain ⟨t₃', hend', -⟩ := Along.word hstop (w := ['%', '\x7d']) (by simp [Text.isLayout]) h₄
  exact endsVerbatim_iff.2 ⟨t₁', w, t₂', t₃', rfl, hw, hname', hend'⟩

theorem endsVerbatim_relaid (hstop : Stops stop stop') (c : Char) (h : Relaid b b') :
    endsVerbatim (c :: (b ++ stop)) = endsVerbatim (c :: (b' ++ stop')) := by
  have hthere : Along stop stop' (b ++ stop) (b' ++ stop') := .inl ⟨b, b', h, rfl, rfl⟩
  rw [Bool.eq_iff_iff]
  exact ⟨endsVerbatim_along hstop hthere, endsVerbatim_along hstop.symm hthere.symm⟩

/-! ### The next delimiter -/

theorem find_gap (verbatim : Bool) (hg : IsGap g) (t : List Char) :
    find verbatim 0 (g ++ t) = (g ++ (find verbatim 0 t).1, (find verbatim 0 t).2) := by
  induction g with
  | nil => rfl
  | cons c g ih =>
    have hc : at? (c :: (g ++ t)) = none := by
      refine at?_of_ne ?_ _
      rintro rfl
      have := hg '\x7b' List.mem_cons_self
      cases this
    rw [List.cons_append, find, hc]
    simp [ih fun a ha => hg a (List.mem_cons_of_mem c ha)]

theorem length_value_of_at? {k : Construct} (h : at? (c :: t) = some (k, value, rest)) :
    value.length - 1 ≤ (t.takeWhile (!Text.isLayout ·)).length := by
  have hstart := at?_start c t
  rw [h, Option.map_some] at hstart
  split at hstart
  · cases hs : start t with
    | nil =>
      rw [hs] at hstart
      cases hstart
    | cons d u =>
      rw [hs, List.head?_cons, Option.bind_some] at hstart
      obtain ⟨k', -, hvalue⟩ := Option.map_eq_some_iff.1 hstart.symm
      obtain ⟨-, rfl⟩ := Prod.mk.inj hvalue
      have hfilter := List.length_filter_le isTrimMarker u
      have hle : (d :: u).length ≤ (t.takeWhile (!Text.isLayout ·)).length := by
        rw [← hs]
        exact List.length_take_le' _ _
      simp only [List.length_cons, List.drop_succ_cons, List.drop_zero] at hle ⊢
      omega
  · cases hstart

theorem skip_le_length_find (verbatim : Bool) (skip : Nat) (t : List Char) :
    min skip t.length ≤ (find verbatim skip t).1.length := by
  induction t generalizing skip with
  | nil => simp
  | cons c t ih =>
    cases skip with
    | zero => simp
    | succ skip =>
      have := ih skip
      simp only [find, List.length_cons]
      omega

theorem length_takeWhile_append_le (p : Char → Bool) (t u : List Char) :
    min t.length ((t ++ u).takeWhile p).length ≤ (t.takeWhile p).length := by
  induction t with
  | nil => simp
  | cons c t ih =>
    cases hc : p c with
    | false => simp [hc]
    | true =>
      simp only [List.cons_append, List.takeWhile_cons_of_pos hc, List.length_cons]
      omega

theorem takeWhile_append_gap (hg : IsGap g) (t : List Char) :
    (t ++ g).takeWhile (!Text.isLayout ·) = t.takeWhile (!Text.isLayout ·) := by
  induction t with
  | nil =>
    cases g with
    | nil => rfl
    | cons a g => simp [hg a List.mem_cons_self]
  | cons c t ih => cases hc : Text.isLayout c <;> simp [hc, ih]

/-- The next delimiter of a text is the next one of a text with other layout. -/
theorem find_relaid {verbatim : Bool} {skip : Nat} (h : Relaid b b') (hstop : Stops stop stop')
    (hskip : skip ≤ (b.takeWhile (!Text.isLayout ·)).length)
    (hfirst : IsGap stop ∨ (find verbatim 0 stop).1 = [])
    (hold : (find verbatim skip (b ++ stop)).1 = b ++ (find verbatim 0 stop).1) :
    find verbatim skip (b' ++ stop') =
      (b' ++ (find verbatim 0 stop').1, (find verbatim 0 stop').2) := by
  induction h generalizing skip with
  | nil =>
    obtain rfl : skip = 0 := by simpa using hskip
    rfl
  | @solid c t t' hc h ih =>
    rw [List.takeWhile_cons_of_pos (by simpa using hc), List.length_cons] at hskip
    rw [List.cons_append] at hold ⊢
    cases skip with
    | succ skip =>
      rw [find] at hold ⊢
      rw [ih (Nat.le_of_succ_le_succ hskip) (List.cons.inj hold).2]
      rfl
    | zero =>
      have hcongr := at?_congr (c := c) (h.start_eq hstop.start_eq)
      rw [find] at hold ⊢
      cases hat : at? (c :: (t ++ stop)) with
      | none =>
        rw [hat, Option.map_none] at hcongr
        rw [Option.map_eq_none_iff.1 hcongr.symm]
        rw [hat] at hold
        rw [ih (Nat.zero_le _) (List.cons.inj hold).2]
        rfl
      | some d =>
        obtain ⟨k, value, rest⟩ := d
        rw [hat, Option.map_some] at hcongr
        obtain ⟨⟨k', value', rest'⟩, hat', hd⟩ := Option.map_eq_some_iff.1 hcongr.symm
        obtain ⟨rfl, rfl⟩ := Prod.mk.inj hd
        rw [hat] at hold
        rw [hat']
        simp only at hold ⊢
        cases hcounts : verbatim && !endsVerbatim (c :: (t ++ stop)) with
        | false =>
          rw [hcounts] at hold
          cases hold
        | true =>
          rw [hcounts, if_pos rfl] at hold
          rw [← endsVerbatim_relaid hstop c h, hcounts, if_pos rfl]
          have hold : (find verbatim (value'.length - 1) (t ++ stop)).1 =
              t ++ (find verbatim 0 stop).1 := (List.cons.inj hold).2
          -- The delimiter that does not count ends in front of the next one.
          have hle : value'.length - 1 ≤ (t.takeWhile (!Text.isLayout ·)).length := by
            have hsolid := length_value_of_at? hat
            have happend := length_takeWhile_append_le (!Text.isLayout ·) t stop
            rcases hfirst with hgap | hnone
            · rw [takeWhile_append_gap hgap] at hsolid
              exact hsolid
            · have hfind := skip_le_length_find verbatim (value'.length - 1) (t ++ stop)
              have htake : ((t ++ stop).takeWhile (!Text.isLayout ·)).length ≤ (t ++ stop).length :=
                (List.takeWhile_prefix _).length_le
              rw [hold, hnone, List.append_nil] at hfind
              simp only at hsolid
              omega
          rw [ih hle hold]
          rfl
  | @gap g g' t t' hg hg' hne hne' h ih =>
    obtain rfl : skip = 0 := by
      cases g with
      | nil => exact absurd rfl hne
      | cons a g => simpa [hg a List.mem_cons_self] using hskip
    rw [List.append_assoc, find_gap verbatim hg, List.append_assoc] at hold
    rw [List.append_assoc, find_gap verbatim hg',
      ih (Nat.zero_le _) (List.append_cancel_left hold), List.append_assoc]

/-! ### The end of a comment -/

theorem start_commentEnd (h : commentEndAt? t = some (value, rest)) (rest' : List Char) :
    start (value ++ rest) = start (value ++ rest') := by
  obtain ⟨-, rfl | ⟨m, hm, rfl⟩⟩ := commentEndAt?_eq_some_iff.1 h
  · simp [start_cons_solid (c := '#') rfl, start_cons_solid (c := '\x7d') rfl]
  · simp [start_cons_solid (isLayout_of_isTrimMarker hm), start_cons_solid (c := '#') rfl]

theorem commentBody?_gap (hg : IsGap g) : commentBody? (g ++ t) = some (g ++ body, value, rest) ↔
      commentBody? t = some (body, value, rest) := by
  induction g with
  | nil => rfl
  | cons c g ih =>
    have hlayout := hg c List.mem_cons_self
    have hnone : commentEndAt? (c :: (g ++ t)) = none := by
      rw [← Option.not_isSome_iff_eq_none, commentEndAt?_isSome]
      rintro (⟨rfl, -⟩ | ⟨hm, -⟩)
      · cases hlayout
      · rw [isLayout_of_isTrimMarker hm] at hlayout
        cases hlayout
    rw [List.cons_append, List.cons_append, commentBody?_cons, hnone,
      ih fun a ha => hg a (List.mem_cons_of_mem c ha)]
    simp

/-- The end of a comment is found in a text with other layout. -/
theorem commentBody?_relaid {body' : List Char} (h : Relaid body body')
    (hbody : commentBody? (body ++ (value ++ rest)) = some (body, value, rest))
    (rest' : List Char) :
    commentBody? (body' ++ (value ++ rest')) = some (body', value, rest') := by
  have hend := commentBody?_found hbody
  induction h with
  | nil =>
    have hend' : commentEndAt? (value ++ rest') = some (value, rest') :=
      commentEndAt?_eq_some_iff.2 ⟨rfl, (commentEndAt?_eq_some_iff.1 hend).2⟩
    rw [List.nil_append]
    cases ht : value ++ rest' with
    | nil =>
      rw [ht] at hend'
      cases hend'
    | cons c t =>
      rw [ht] at hend'
      rw [commentBody?, hend']
  | solid hc h ih =>
    obtain ⟨hnone, hbody⟩ := commentBody?_cons.1 hbody
    exact commentBody?_cons.2
      ⟨commentEndAt?_congr (h.start_eq (start_commentEnd hend rest')) hnone, ih hbody⟩
  | gap hg hg' _ _ _ ih =>
    rw [List.append_assoc] at hbody ⊢
    exact (commentBody?_gap hg').2 (ih ((commentBody?_gap hg).1 hbody))

end Delimiter

end TwigStyle
