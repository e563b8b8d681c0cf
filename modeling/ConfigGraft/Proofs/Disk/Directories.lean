import ConfigGraft.Proofs.Disk.Shape

/-!
# The directories of a disk

A name is followed through directories, and it does not matter which files there are besides. So
writing a file, be it a new one or not, leaves each name to lead where it led. What may change is
why a name leads nowhere: a step into nothing fails in another way than a step into a file.

## Main results

* `Disk.SameDirectories.locate_eq_ok` — names lead to the same places;
* `Disk.sameDirectories_put` — writing a file leaves the directories alone.
-/

namespace ConfigGraft.Disk

/-- Disks with the **same directories**, and with whatever files. -/
structure SameDirectories (d e : Disk) : Prop where
  here : e.here = d.here
  directory_iff : ∀ place, e.node? place = some .directory ↔ d.node? place = some .directory

variable {d e f : Disk}

/-- A disk has the directories that it has. -/
theorem SameDirectories.refl (d : Disk) : SameDirectories d d := ⟨rfl, fun _ => .rfl⟩

/-- Having the same directories is passed on. -/
theorem SameDirectories.trans (h : SameDirectories d e) (h' : SameDirectories e f) :
    SameDirectories d f :=
  ⟨h'.here.trans h.here, fun place => (h'.directory_iff place).trans (h.directory_iff place)⟩

/-! ### Where names lead -/

/-- A step needs no more than directories, so it leads to the same place on both disks. -/
theorem SameDirectories.step_eq_ok (h : SameDirectories d e) {place next : Location}
    {part : String} : e.step place part = .ok next ↔ d.step place part = .ok next := by
  by_cases hd : d.node? place = some .directory
  · have he := (h.directory_iff place).2 hd
    rw [step, step, hd, he]
  · have he := mt (h.directory_iff place).1 hd
    exact ⟨fun hstep => absurd (node?_of_step hstep) he,
      fun hstep => absurd (node?_of_step hstep) hd⟩

/-- So does every walk. -/
theorem SameDirectories.walk_eq_ok (h : SameDirectories d e) {place last : Location}
    {parts : List String} : e.walk place parts = .ok last ↔ d.walk place parts = .ok last := by
  induction parts generalizing place with
  | nil => exact .rfl
  | cons part rest ih => simp only [walk_cons_eq_ok, h.step_eq_ok, ih]

/-- **Names lead to the same places.** -/
theorem SameDirectories.locate_eq_ok (h : SameDirectories d e) {name : String}
    {place : Location} : e.locate name = .ok place ↔ d.locate name = .ok place := by
  rw [Disk.locate_eq_ok, Disk.locate_eq_ok, start, start, h.here, h.walk_eq_ok]

/-- A name to write a file by is one on both disks: files do not matter for that. -/
theorem SameDirectories.target_eq_ok (h : SameDirectories d e) {name : String}
    {place : Location} : e.target name = .ok place ↔ d.target name = .ok place := by
  rw [Disk.target_eq_ok, Disk.target_eq_ok, h.locate_eq_ok, Ne, Ne, h.directory_iff]

/-! ### Writing -/

/-- The root is a directory. -/
theorem ne_nil_of_ne_directory {disk : Disk} {place : Location}
    (h : disk.node? place ≠ some .directory) : place ≠ [] := by
  rintro rfl
  exact h (if_pos rfl)

/-- **Writing a file leaves the directories alone.** -/
theorem sameDirectories_put {disk : Disk} {place : Location}
    (h : disk.node? place ≠ some .directory) (content : ByteArray) :
    SameDirectories disk (disk.put place (.file content)) := by
  refine ⟨rfl, fun other => ?_⟩
  rw [node?_put (ne_nil_of_ne_directory h)]
  split
  · rename_i heq
    subst heq
    exact ⟨nofun, fun hd => absurd hd h⟩
  · exact .rfl

/-- Adding to a file, or making one, makes no directory. -/
theorem sameDirectories_appendAt (disk : Disk) (place : Location) (content : ByteArray) :
    SameDirectories disk (disk.appendAt place content) := by
  rw [appendAt]
  split
  · rename_i hfile
    exact sameDirectories_put (by simp [hfile]) _
  · exact .refl disk
  · rename_i hnone
    exact sameDirectories_put (by simp [hnone]) _

end ConfigGraft.Disk
