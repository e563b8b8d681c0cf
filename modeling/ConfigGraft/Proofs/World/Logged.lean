import ConfigGraft.World
import ConfigGraft.Proofs.Disk.Directories

/-!
# What records do to a world

A run reports what it does, and where the journal is kept in a file of the disk each record is a
write there. This module bounds what any number of records can do: the journal stays where it is,
files other than that of the journal keep what they hold, directories stay what they are, and once
the file of the journal is there the disk keeps its shape.

## Main results

* `World.Logged.disk_eq` — a journal that is in no file leaves the disk alone;
* `World.Logged.node?_eq` — other files than that of the journal are left alone;
* `World.Logged.sameDirectories` — no directory comes or goes;
* `World.Logged.sameShape` — an open journal keeps the shape of the disk;
* `World.Spares.find_eq_ok` — **a name that the journal spares leads to what it led to.**
-/

namespace ConfigGraft

/-- Where something stands, adding to a file keeps the shape of a disk. -/
theorem Disk.sameShape_appendAt {disk : Disk} {place : Location}
    (h : (disk.node? place).isSome) (content : ByteArray) :
    SameShape disk (disk.appendAt place content) := by
  rw [appendAt]
  split
  · rename_i hfile; exact sameShape_put hfile _
  · exact SameShape.refl disk
  · rename_i hnone; rw [hnone] at h; cases h

/-- Adding to a file leaves other places alone. -/
theorem Disk.node?_appendAt {disk : Disk} {place other : Location} (h : other ≠ place)
    (content : ByteArray) : (disk.appendAt place content).node? other = disk.node? other := by
  have hroot : disk.node? place ≠ some .directory → place ≠ [] := by
    rintro hne rfl
    simp [node?] at hne
  rw [appendAt]
  split
  · rename_i hfile; rw [node?_put (hroot (by simp [hfile])), if_neg h]
  · rfl
  · rename_i hnone; rw [node?_put (hroot (by simp [hnone])), if_neg h]

namespace World

/-- A journal that is kept in a file is **open** when the file is there. -/
def Opened (w : World) : Prop :=
  ∀ place, w.journal.sink = .file place → (w.disk.node? place).isSome

/-- A world that differs from another one by records only. -/
inductive Logged : World → World → Prop
  | refl (w : World) : Logged w w
  | note {w v : World} (r : Log.Record) : Logged w v → Logged w (v.note r)

/-! ### One record -/

/-- The journal is kept in the same place after a note. -/
theorem sink_note (r : Log.Record) (w : World) : (w.note r).journal.sink = w.journal.sink := by
  rw [note, write]
  split
  · split <;> rfl
  · rfl

/-- A note keeps the shape of the disk, the journal being there already. -/
theorem sameShape_note (r : Log.Record) {w : World} (h : w.Opened) :
    w.disk.SameShape (w.note r).disk := by
  rw [note, write]
  split
  · split
    · exact Disk.SameShape.refl _
    · exact Disk.SameShape.refl _
    · exact Disk.SameShape.refl _
    · rename_i place hsink; exact Disk.sameShape_appendAt (h place hsink) _
  · exact Disk.SameShape.refl _

/-- It makes no directory. -/
theorem sameDirectories_note (r : Log.Record) (w : World) :
    w.disk.SameDirectories (w.note r).disk := by
  rw [note, write]
  split
  · split
    · exact .refl _
    · exact .refl _
    · exact .refl _
    · exact Disk.sameDirectories_appendAt ..
  · exact .refl _

/-- A journal that is off leaves the world alone. -/
theorem note_of_off (r : Log.Record) {w : World} (h : w.journal.sink = .off) : w.note r = w := by
  rw [note, write]
  split
  · rw [h]
  · rfl

/-- It leaves all places alone but the one of the journal. -/
theorem node?_note (r : Log.Record) {w : World} {place : Location}
    (h : w.journal.sink ≠ .file place) : (w.note r).disk.node? place = w.disk.node? place := by
  rw [note, write]
  split
  · split
    · rfl
    · rfl
    · rfl
    · rename_i other hsink
      have hother : place ≠ other := by
        rintro rfl
        exact h hsink
      exact Disk.node?_appendAt hother _
  · rfl

/-- A disk of the same shape leaves a journal open. -/
theorem Opened.of_sameShape {w v : World} (h : w.Opened) (hsink : v.journal.sink = w.journal.sink)
    (hshape : w.disk.SameShape v.disk) : v.Opened := by
  intro place hplace
  rw [hshape.isSome_node?]
  exact h place (hsink ▸ hplace)

/-! ### Any number of records -/

namespace Logged

variable {u v w : World}

/-- Notes after notes are notes. -/
theorem trans (h : Logged u v) (h' : Logged v w) : Logged u w := by
  induction h' with
  | refl => exact h
  | note r _ ih => exact .note r ih

/-- The journal stays where it is kept. -/
theorem sink_eq (h : Logged w v) : v.journal.sink = w.journal.sink := by
  induction h with
  | refl => rfl
  | note r _ ih => rw [sink_note, ih]

/-- A journal that is off leaves the world alone. -/
theorem eq_of_off (h : Logged w v) (hoff : w.journal.sink = .off) : v = w := by
  induction h with
  | refl => rfl
  | note r hv ih => rw [note_of_off r (ih ▸ hoff), ih]

/-- A journal that is in no file leaves the disk alone. -/
theorem disk_eq (h : Logged w v) (hsink : ∀ place, w.journal.sink ≠ .file place) :
    v.disk = w.disk := by
  induction h with
  | refl => rfl
  | note r hv ih => rw [disk_note r (fun place => hv.sink_eq ▸ hsink place), ih]

/-- Other files than that of the journal are left alone. -/
theorem node?_eq (h : Logged w v) {place : Location} (hsink : w.journal.sink ≠ .file place) :
    v.disk.node? place = w.disk.node? place := by
  induction h with
  | refl => rfl
  | note r hv ih => rw [node?_note r (hv.sink_eq ▸ hsink), ih]

/-- No directory comes or goes. -/
theorem sameDirectories (h : Logged w v) : w.disk.SameDirectories v.disk := by
  induction h with
  | refl => exact .refl _
  | note r _ ih => exact ih.trans (sameDirectories_note r _)

/-- An open journal keeps the shape of the disk. -/
theorem sameShape (h : Logged w v) (hopen : w.Opened) : w.disk.SameShape v.disk := by
  induction h with
  | refl => exact Disk.SameShape.refl _
  | note r hv ih => exact ih.trans (sameShape_note r (hopen.of_sameShape hv.sink_eq ih))

/-- An open journal stays open. -/
theorem opened (h : Logged w v) (hopen : w.Opened) : v.Opened :=
  hopen.of_sameShape h.sink_eq (h.sameShape hopen)

end Logged

/-! ### Names apart from the journal -/

/-- A world **spares** a name if its journal is not kept where the name leads. -/
def Spares (w : World) (name : String) : Prop :=
  ∀ place, w.disk.locate name = .ok place → w.journal.sink ≠ .file place

variable {w v : World} {name : String}

/-- Where no journal is kept, every name is spared. -/
theorem spares_of_off (h : w.journal.sink = .off) (name : String) : w.Spares name := by
  intro place _ hfile
  rw [h] at hfile
  cases hfile

/-- The same names are spared after notes. -/
theorem Logged.spares_iff (h : w.Logged v) : v.Spares name ↔ w.Spares name := by
  simp only [Spares, h.sameDirectories.locate_eq_ok, h.sink_eq]

/-- **A name that the journal spares leads to what it led to.** -/
theorem Spares.find_eq_ok (hspares : v.Spares name) (h : w.Logged v) {place : Location}
    {node : Disk.Node} :
    v.disk.find name = .ok (place, node) ↔ w.disk.find name = .ok (place, node) := by
  rw [Disk.find_eq_ok, Disk.find_eq_ok, h.sameDirectories.locate_eq_ok]
  apply and_congr_right
  intro hplace
  have hsink := h.spares_iff.1 hspares place hplace
  rw [h.node?_eq hsink]

end World

end ConfigGraft
