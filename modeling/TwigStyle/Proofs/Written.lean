import TwigStyle.Disk.Basic

/-!
# Reading back what was written

A write changes one location.  The file there holds the new text afterwards, every other file keeps
its own, and every directory is still a directory, so all paths lead where they did before.
-/

namespace TwigStyle

namespace Disk

variable {entries entries' : List (String × DiskNode)} {data data' : FileData} {l l' : Location}

/-! ### Entries -/

theorem lookup_setEntry_self (name : String) (node : DiskNode) (entries : List (String × DiskNode)) :
    (setEntry name node entries).lookup name = some node := by
  induction entries with
  | nil => simp [setEntry]
  | cons entry entries ih =>
    obtain ⟨n, old⟩ := entry
    unfold setEntry
    split
    · simp
    · rename_i hne
      rw [List.lookup_cons, beq_false_of_ne (Ne.symm hne)]
      exact ih

theorem lookup_setEntry_of_ne {name other : String} (h : other ≠ name) (node : DiskNode)
    (entries : List (String × DiskNode)) :
    (setEntry name node entries).lookup other = entries.lookup other := by
  induction entries with
  | nil => simp [setEntry, h]
  | cons entry entries ih =>
    obtain ⟨n, old⟩ := entry
    unfold setEntry
    split
    · rename_i heq
      rw [List.lookup_cons, List.lookup_cons, heq, beq_false_of_ne h]
    · rw [List.lookup_cons, List.lookup_cons, ih]

/-! ### Trees -/

/-- What putting a file does to one entry: it goes on in a directory, or it is the file. -/
inductive Puts (data : FileData) (old : Option DiskNode) : Location → DiskNode → Prop
  | below {children children' : List (String × DiskNode)} {rest : Location}
      (hold : old = some (.directory children)) (hput : putBelow data children rest = .ok children') :
    Puts data old rest (.directory children')
  | here (hold : ∀ children, old ≠ some (.directory children)) : Puts data old [] (.file data)

theorem putBelow_cons {name : String} {rest : Location}
    (h : putBelow data entries (name :: rest) = .ok entries') :
    ∃ node, entries' = setEntry name node entries ∧ Puts data (entries.lookup name) rest node := by
  unfold putBelow at h
  split at h
  · rename_i children hlookup
    split at h
    · rename_i children' hput
      cases h
      exact ⟨_, rfl, .below hlookup hput⟩
    · cases h
  all_goals
    rename_i hlookup
    split at h
    · rename_i hempty
      cases h
      rw [List.isEmpty_iff.1 hempty]
      refine ⟨_, rfl, .here fun children => ?_⟩
      rw [hlookup]
      exact nofun
    · cases h

theorem nodeBelow?_putBelow (h : putBelow data entries l = .ok entries') :
    nodeBelow? entries' l = some (.file data) := by
  induction l generalizing entries entries' with
  | nil => cases h
  | cons name rest ih =>
    obtain ⟨node, rfl, hputs⟩ := putBelow_cons h
    rw [nodeBelow?, lookup_setEntry_self]
    cases hputs with
    | below _ hput => exact ih hput
    | here _ => rfl

theorem nodeBelow?_putBelow_of_ne (h : putBelow data entries l = .ok entries') (hne : l' ≠ l)
    (hfile : nodeBelow? entries l' = some (.file data')) :
    nodeBelow? entries' l' = some (.file data') := by
  induction l generalizing entries entries' l' with
  | nil => cases h
  | cons name rest ih =>
    cases l' with
    | nil => cases hfile
    | cons name' rest' =>
      obtain ⟨node, rfl, hputs⟩ := putBelow_cons h
      by_cases hname : name' = name
      · subst hname
        have hrest : rest' ≠ rest := fun heq => hne (by rw [heq])
        rw [nodeBelow?, lookup_setEntry_self]
        unfold nodeBelow? at hfile
        cases hputs with
        | below hold hput =>
          rw [hold] at hfile
          exact ih hput hrest hfile
        | here hold =>
          -- Nothing stands below a file.
          split at hfile
          · cases hfile
          · rename_i hlookup
            exact absurd hlookup (hold _)
          · simp [hrest] at hfile
      · rw [nodeBelow?, lookup_setEntry_of_ne hname]
        exact hfile

theorem nodeBelow?_putBelow_directory (h : putBelow data entries l = .ok entries')
    {children : List (String × DiskNode)}
    (hdirectory : nodeBelow? entries l' = some (.directory children)) :
    ∃ children', nodeBelow? entries' l' = some (.directory children') := by
  induction l generalizing entries entries' l' with
  | nil => cases h
  | cons name rest ih =>
    cases l' with
    | nil => exact ⟨entries', rfl⟩
    | cons name' rest' =>
      obtain ⟨node, rfl, hputs⟩ := putBelow_cons h
      by_cases hname : name' = name
      · subst hname
        rw [nodeBelow?, lookup_setEntry_self]
        unfold nodeBelow? at hdirectory
        cases hputs with
        | below hold hput =>
          rw [hold] at hdirectory
          exact ih hput hdirectory
        | here hold =>
          split at hdirectory
          · cases hdirectory
          · rename_i hlookup
            exact absurd hlookup (hold _)
          · split at hdirectory <;> cases hdirectory
      · rw [nodeBelow?, lookup_setEntry_of_ne hname]
        exact ⟨children, hdirectory⟩

/-! ### Paths -/

variable {d d' : Disk} {p q : Path} {t u : List Char}

theorem write_eq_ok (h : d.write p t = .ok d') :
    ∃ l, d.locate p = .ok l ∧ putBelow (.text t) d.entries l = .ok d'.entries ∧
      d'.workingDirectory = d.workingDirectory := by
  unfold write at h
  split at h
  · cases h
  · rename_i l hlocate
    split at h
    · rename_i entries hput
      cases h
      exact ⟨l, hlocate, hput, rfl⟩
    · cases h

theorem steps_of_directories {pieces : List String}
    (hdirectory : ∀ l children, d.node? l = some (.directory children) →
      ∃ children', d'.node? l = some (.directory children'))
    (h : d.steps l pieces = .ok l') : d'.steps l pieces = .ok l' := by
  induction pieces generalizing l with
  | nil => exact h
  | cons piece pieces ih =>
    have hstep : ∀ {l₁}, d.step l piece = .ok l₁ → d'.step l piece = .ok l₁ := by
      intro l₁ hstep
      unfold step at hstep ⊢
      split at hstep
      · cases hstep
      · cases hstep
      · rename_i children hnode
        obtain ⟨children', hnode'⟩ := hdirectory l children hnode
        rw [hnode']
        exact hstep
    unfold steps at h ⊢
    split at h
    · cases h
    · rename_i l₁ hl₁
      rw [hstep hl₁]
      exact ih h

theorem locate_write (h : d.write p t = .ok d') (hlocate : d.locate q = .ok l) :
    d'.locate q = .ok l := by
  obtain ⟨l₀, -, hput, hworking⟩ := write_eq_ok h
  unfold locate absolute at hlocate ⊢
  rw [hworking]
  split at hlocate
  · cases hlocate
  · rename_i hne
    rw [if_neg hne]
    exact steps_of_directories (fun _ _ hnode => nodeBelow?_putBelow_directory hput hnode) hlocate

theorem read_eq_ok_iff : d.read p = .ok t ↔
    ∃ l, d.locate p = .ok l ∧ d.node? l = some (.file (.text t)) := by
  unfold read find
  constructor
  · intro h
    split at h
    · cases h
    · cases h
    · cases h
    · rename_i t' hfind
      cases h
      split at hfind
      · cases hfind
      · rename_i l hlocate
        split at hfind
        · cases hfind
        · rename_i node hnode
          cases hfind
          exact ⟨l, hlocate, hnode⟩
  · rintro ⟨l, hlocate, hnode⟩
    rw [hlocate]
    simp only [hnode]

theorem read_write (h : d.write p t = .ok d') : d'.read p = .ok t := by
  obtain ⟨l, hlocate, hput, -⟩ := write_eq_ok h
  exact read_eq_ok_iff.2 ⟨l, locate_write h hlocate, nodeBelow?_putBelow hput⟩

theorem read_write_of_ne (h : d.write p t = .ok d') (hne : d.locate q ≠ d.locate p)
    (hread : d.read q = .ok u) : d'.read q = .ok u := by
  obtain ⟨l, hlocate, hput, -⟩ := write_eq_ok h
  obtain ⟨l', hlocate', hnode⟩ := read_eq_ok_iff.1 hread
  refine read_eq_ok_iff.2 ⟨l', locate_write h hlocate', nodeBelow?_putBelow_of_ne hput ?_ hnode⟩
  rintro rfl
  rw [hlocate, hlocate'] at hne
  exact hne rfl

end Disk

end TwigStyle
