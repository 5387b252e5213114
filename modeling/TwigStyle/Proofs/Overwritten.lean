import TwigStyle.Proofs.Written

/-!
# Files that are there already

Writing a file that exists makes nothing and removes nothing: what was no file is none afterwards, and
what was a directory is one.  Every path therefore leads where it led before, or fails as it failed
before, and whatever does not lead to that file holds the same (`dataAt_write_of_apart`).

Two such writes to different files can be made in either order (`write_comm`).
-/

namespace TwigStyle

namespace Disk

variable {entries entries₁ entries₂ : List (String × DiskNode)} {data a b old old' : FileData}
  {l l' rest : Location} {name : String}

/-! ### Entries -/

theorem setEntry_setEntry (name : String) (node node' : DiskNode)
    (entries : List (String × DiskNode)) :
    setEntry name node' (setEntry name node entries) = setEntry name node' entries := by
  induction entries with
  | nil => simp [setEntry]
  | cons entry entries ih =>
    by_cases h : entry.1 = name
    · simp [setEntry, h]
    · simp [setEntry, h, ih]

theorem setEntry_comm {m n : String} (hne : m ≠ n) (x y : DiskNode)
    (hm : (entries.lookup m).isSome = true) (hn : (entries.lookup n).isSome = true) :
    setEntry m x (setEntry n y entries) = setEntry n y (setEntry m x entries) := by
  induction entries with
  | nil => cases hm
  | cons entry entries ih =>
    obtain ⟨k, node⟩ := entry
    by_cases hkm : k = m
    · subst hkm
      simp [setEntry, hne]
    · by_cases hkn : k = n
      · subst hkn
        simp [setEntry, hkm]
      · rw [List.lookup_cons, beq_false_of_ne (Ne.symm hkm)] at hm
        rw [List.lookup_cons, beq_false_of_ne (Ne.symm hkn)] at hn
        simp [setEntry, hkm, hkn, ih hm hn]

/-! ### Trees -/

theorem putBelow_of_puts {node : DiskNode} (h : Puts data (entries.lookup name) rest node) :
    putBelow data entries (name :: rest) = .ok (setEntry name node entries) := by
  unfold putBelow
  cases h with
  | below hold hput => simp only [hold, hput]
  | here hold =>
    split
    · rename_i children hlookup
      exact absurd hlookup (hold children)
    · rfl
    · rfl

theorem nodeBelow?_cons_file (h : nodeBelow? entries (name :: rest) = some (.file old)) :
    (∃ children, entries.lookup name = some (.directory children) ∧
        nodeBelow? children rest = some (.file old)) ∨
      entries.lookup name = some (.file old) ∧ rest = [] := by
  unfold nodeBelow? at h
  split at h
  · cases h
  · rename_i children hlookup
    exact .inl ⟨children, hlookup, h⟩
  · rename_i data hlookup
    split at h
    · rename_i hempty
      cases h
      exact .inr ⟨hlookup, List.isEmpty_iff.1 hempty⟩
    · cases h

theorem putBelow_of_file (data : FileData) (h : nodeBelow? entries l = some (.file old)) :
    ∃ entries', putBelow data entries l = .ok entries' := by
  induction l generalizing entries with
  | nil => cases h
  | cons name rest ih =>
    rcases nodeBelow?_cons_file h with ⟨children, hlookup, hbelow⟩ | ⟨hlookup, rfl⟩
    · obtain ⟨children', hput⟩ := ih hbelow
      exact ⟨_, putBelow_of_puts (.below hlookup hput)⟩
    · exact ⟨_, putBelow_of_puts (.here (by rw [hlookup]; exact nofun))⟩

theorem nodeBelow?_putBelow_none (hfile : nodeBelow? entries l = some (.file old))
    (h : putBelow data entries l = .ok entries₁) (hnone : nodeBelow? entries l' = none) :
    nodeBelow? entries₁ l' = none := by
  induction l generalizing entries entries₁ l' with
  | nil => cases h
  | cons name rest ih =>
    cases l' with
    | nil => cases hnone
    | cons name' rest' =>
      obtain ⟨node, rfl, hputs⟩ := putBelow_cons h
      by_cases hname : name' = name
      · subst hname
        rw [nodeBelow?, lookup_setEntry_self]
        unfold nodeBelow? at hnone
        rcases nodeBelow?_cons_file hfile with ⟨children, hlookup, hbelow⟩ | ⟨hlookup, rfl⟩
        · rw [hlookup] at hnone hputs
          cases hputs with
          | below hold hput =>
            cases hold
            exact ih hbelow hput hnone
          | here hold => exact absurd rfl (hold children)
        · rw [hlookup] at hnone hputs
          cases hputs with
          | below hold hput => cases hold
          | here hold => simpa using hnone
      · rw [nodeBelow?, lookup_setEntry_of_ne hname]
        exact hnone

theorem putBelow_comm (hne : l ≠ l') (hl : nodeBelow? entries l = some (.file old))
    (hl' : nodeBelow? entries l' = some (.file old')) (ha : putBelow a entries l = .ok entries₁)
    (hb : putBelow b entries l' = .ok entries₂) :
    putBelow b entries₁ l' = putBelow a entries₂ l := by
  induction l generalizing entries entries₁ entries₂ l' with
  | nil => cases ha
  | cons name rest ih =>
    cases l' with
    | nil => cases hb
    | cons name' rest' =>
      obtain ⟨x, rfl, hx⟩ := putBelow_cons ha
      obtain ⟨y, rfl, hy⟩ := putBelow_cons hb
      by_cases hname : name' = name
      · -- Both are below the same entry, which is a directory since the files differ.
        subst hname
        rcases nodeBelow?_cons_file hl with ⟨children, hlookup, hbelow⟩ | ⟨hlookup, rfl⟩
        · rcases nodeBelow?_cons_file hl' with ⟨children', hlookup', hbelow'⟩ | ⟨hlookup', -⟩
          · rw [hlookup] at hlookup' hx hy
            cases hlookup'
            cases hx with
            | here hold => exact absurd rfl (hold children)
            | below hold hputx =>
              cases hold
              cases hy with
              | here hold => exact absurd rfl (hold children)
              | below hold hputy =>
                cases hold
                have hrest : rest ≠ rest' := fun heq => hne (by rw [heq])
                have hcomm := ih hrest hbelow hbelow' hputx hputy
                simp only [putBelow, lookup_setEntry_self, hcomm, setEntry_setEntry]
          · rw [hlookup] at hlookup'
            cases hlookup'
        · rcases nodeBelow?_cons_file hl' with ⟨children', hlookup', -⟩ | ⟨-, rfl⟩
          · rw [hlookup] at hlookup'
            cases hlookup'
          · exact absurd rfl hne
      · have hsome : ∀ {name rest old}, nodeBelow? entries (name :: rest) = some (.file old) →
            (entries.lookup name).isSome = true := by
          intro name rest old hfile
          rcases nodeBelow?_cons_file hfile with ⟨children, hlookup, -⟩ | ⟨hlookup, -⟩ <;>
            rw [hlookup] <;> rfl
        have hx' : Puts a ((setEntry name' y entries).lookup name) rest x := by
          rwa [lookup_setEntry_of_ne (Ne.symm hname)]
        have hy' : Puts b ((setEntry name x entries).lookup name') rest' y := by
          rwa [lookup_setEntry_of_ne hname]
        rw [putBelow_of_puts hx', putBelow_of_puts hy', setEntry_comm hname y x (hsome hl') (hsome hl)]

/-! ### Paths -/

variable {d d' d₁ d₂ : Disk} {p q : Path} {t t' u u' : List Char}

/-- The two paths do not lead to one location. -/
def Apart (d : Disk) (p q : Path) : Prop := ∀ l, d.locate p = .ok l → d.locate q ≠ .ok l

theorem Apart.symm (h : d.Apart p q) : d.Apart q p := fun l hq hp => h l hp hq

/-- What is at a path: the data of a file, and none of a directory. -/
def dataAt (d : Disk) (p : Path) : Except DiskError (Option FileData) :=
  match d.find p with
  | .error e => .error e
  | .ok (.directory _) => .ok none
  | .ok (.file data) => .ok (some data)

theorem read_congr (h : d.dataAt p = d'.dataAt q) : d.read p = d'.read q := by
  revert h
  unfold dataAt read
  generalize d.find p = x
  generalize d'.find q = y
  intro h
  rcases x with e | node | children <;> rcases y with e' | node' | children' <;> cases h <;> rfl

theorem dataAt_of_read (h : d.read p = .ok t) : d.dataAt p = .ok (some (.text t)) := by
  obtain ⟨l, hlocate, hnode⟩ := read_eq_ok_iff.1 h
  unfold dataAt find
  rw [hlocate]
  simp only [hnode]

theorem write_of_read (t : List Char) (h : d.read p = .ok u) : ∃ d', d.write p t = .ok d' := by
  obtain ⟨l, hlocate, hnode⟩ := read_eq_ok_iff.1 h
  obtain ⟨entries, hput⟩ := putBelow_of_file (.text t) hnode
  exact ⟨{ d with entries }, by simp only [write, hlocate, hput]⟩

/-- No node changes its kind, and the data of one file alone changes. -/
theorem node?_write (h : d.write p t = .ok d') (hread : d.read p = .ok u) (l : Location) :
    (d.node? l = none ∧ d'.node? l = none) ∨
    (∃ children children', d.node? l = some (.directory children) ∧
      d'.node? l = some (.directory children')) ∨
    ∃ data data', d.node? l = some (.file data) ∧ d'.node? l = some (.file data') ∧
      (d.locate p ≠ .ok l → data' = data) := by
  obtain ⟨place, hlocate, hnode⟩ := read_eq_ok_iff.1 hread
  obtain ⟨place', hlocate', hput, -⟩ := write_eq_ok h
  obtain rfl : place = place' := Except.ok.inj (hlocate.symm.trans hlocate')
  cases hl : d.node? l with
  | none => exact .inl ⟨rfl, nodeBelow?_putBelow_none hnode hput hl⟩
  | some node =>
    cases node with
    | directory children =>
      obtain ⟨children', hchildren⟩ := nodeBelow?_putBelow_directory hput hl
      exact .inr (.inl ⟨children, children', rfl, hchildren⟩)
    | file data =>
      by_cases heq : l = place
      · subst heq
        exact .inr (.inr ⟨data, _, rfl, nodeBelow?_putBelow hput, fun hne => absurd hlocate hne⟩)
      · exact .inr (.inr ⟨data, data, rfl, nodeBelow?_putBelow_of_ne hput heq hl, fun _ => rfl⟩)

theorem step_write (h : d.write p t = .ok d') (hread : d.read p = .ok u) (l : Location)
    (piece : String) : d'.step l piece = d.step l piece := by
  unfold step
  rcases node?_write h hread l with ⟨hl, hl'⟩ | ⟨_, _, hl, hl'⟩ | ⟨_, _, hl, hl', -⟩ <;> rw [hl, hl']

theorem locate_write_of_read (h : d.write p t = .ok d') (hread : d.read p = .ok u) (q : Path) :
    d'.locate q = d.locate q := by
  have hsteps : ∀ (pieces : List String) (l : Location), d'.steps l pieces = d.steps l pieces := by
    intro pieces
    induction pieces with
    | nil => exact fun l => rfl
    | cons piece pieces ih =>
      intro l
      simp only [steps, step_write h hread, ih]
  obtain ⟨-, -, -, hworking⟩ := write_eq_ok h
  simp only [locate, absolute, hworking, hsteps]

/-- Whatever leads elsewhere holds the same, or fails in the same way. -/
theorem dataAt_write_of_apart (h : d.write p t = .ok d') (hread : d.read p = .ok u)
    (hapart : d.Apart p q) : d'.dataAt q = d.dataAt q := by
  unfold dataAt find
  rw [locate_write_of_read h hread]
  cases hq : d.locate q with
  | error e => rfl
  | ok l =>
    have hne : d.locate p ≠ .ok l := fun hp => hapart l hp hq
    rcases node?_write h hread l with ⟨hl, hl'⟩ | ⟨_, _, hl, hl'⟩ | ⟨_, _, hl, hl', hsame⟩
    · simp only [hl, hl']
    · simp only [hl, hl']
    · simp only [hl, hl', hsame hne]

/-- **Writes to two files commute.** -/
theorem write_comm (hp : d.read p = .ok u) (hq : d.read q = .ok u') (hapart : d.Apart p q)
    (h₁ : d.write p t = .ok d₁) (h₂ : d.write q t' = .ok d₂) : d₁.write q t' = d₂.write p t := by
  obtain ⟨l, hl, hfile⟩ := read_eq_ok_iff.1 hp
  obtain ⟨l', hl', hfile'⟩ := read_eq_ok_iff.1 hq
  obtain ⟨m, hm, hput, hworking⟩ := write_eq_ok h₁
  obtain ⟨m', hm', hput', hworking'⟩ := write_eq_ok h₂
  obtain rfl : l = m := Except.ok.inj (hl.symm.trans hm)
  obtain rfl : l' = m' := Except.ok.inj (hl'.symm.trans hm')
  have hne : l ≠ l' := by
    rintro rfl
    exact hapart l hl hl'
  have hcomm := putBelow_comm hne hfile hfile' hput hput'
  simp only [write, locate_write_of_read h₁ hp, locate_write_of_read h₂ hq, hl, hl', hcomm, hworking,
    hworking']

end Disk

end TwigStyle
