import ConfigGraft.Proofs.Disk.Room
import ConfigGraft.Proofs.World.Logged

/-!
# Worlds that differ in their journals

Two runs that do the same to the files may have different things to report. Their worlds are twins:
the journal is kept in the same file, or in none, and their disks agree off this file. A name that
the journal spares leads to the same file in both.

## Main results

* `World.Logged.twins` — records leave a twin of the world behind;
* `World.Twins.find_eq_ok` — **a name that the journal spares leads to the same in both;**
* `World.Twins.withDisk` — what is done to the disks of both leaves twins.
-/

namespace ConfigGraft.World

/-- Whether the journal is kept at a place. -/
def KeptAt (w : World) (place : Location) : Prop := w.journal.sink = .file place

variable {u v w : World}

/-- An open journal is open on a disk that grew. -/
theorem Opened.of_grows (h : w.Opened) (hsink : v.journal.sink = w.journal.sink)
    (hgrows : w.disk.Grows v.disk) : v.Opened := by
  intro place hplace
  obtain ⟨node, hnode⟩ := Option.isSome_iff_exists.1 (h place (hsink ▸ hplace))
  obtain ⟨node', hnode', -⟩ := hgrows.kind place node hnode
  rw [hnode']
  rfl

/-- **Twins** are worlds whose journals are open in the same file, or are in none, and whose disks
agree off it. -/
structure Twins (w v : World) : Prop where
  opened : w.Opened
  keptAt_eq : v.KeptAt = w.KeptAt
  agree : Disk.AgreeOff w.KeptAt w.disk v.disk

/-- A journal in the same place is kept at the same places. -/
theorem keptAt_eq (h : v.journal.sink = w.journal.sink) : v.KeptAt = w.KeptAt := by
  funext place
  rw [KeptAt, KeptAt, h]

/-- Records change a disk where the journal is kept, and nowhere else. -/
theorem Logged.agree (h : w.Logged v) (hopen : w.Opened) :
    Disk.AgreeOff w.KeptAt w.disk v.disk :=
  ⟨h.sameShape hopen, fun _ hplace => h.node?_eq hplace, fun hnone => h.disk_eq hnone⟩

/-- **Records leave a twin of the world behind.** -/
theorem Logged.twins (h : w.Logged v) (hopen : w.Opened) : w.Twins v :=
  ⟨hopen, keptAt_eq h.sink_eq, h.agree hopen⟩

/-- Worlds with the same disk, and a journal in no file, are twins. -/
theorem twins_of_disk_eq (h : v.disk = w.disk) (hw : ∀ place, ¬ w.KeptAt place)
    (hv : ∀ place, ¬ v.KeptAt place) : w.Twins v := by
  refine ⟨fun place hkept => absurd hkept (hw place), ?_, h ▸ .refl v.disk⟩
  funext place
  exact propext (iff_of_false (hv place) (hw place))

namespace Twins

/-- A world with an open journal is a twin of itself. -/
theorem refl (h : w.Opened) : w.Twins w := (Logged.refl w).twins h

/-- Being twins goes both ways. -/
theorem symm (h : w.Twins v) : v.Twins w := by
  refine ⟨fun place hplace => ?_, h.keptAt_eq.symm, h.keptAt_eq ▸ h.agree.symm⟩
  have hkept : w.KeptAt place := h.keptAt_eq ▸ hplace
  exact (h.agree.shape.isSome_node? place).trans (h.opened place hkept)

/-- Twins of twins are twins. -/
theorem trans (h : u.Twins v) (h' : v.Twins w) : u.Twins w :=
  ⟨h.opened, h'.keptAt_eq.trans h.keptAt_eq, h.agree.trans (h.keptAt_eq ▸ h'.agree)⟩

/-- Twins stay twins whatever each of them records. -/
theorem logged {w' v' : World} (h : w.Twins v) (hw : w.Logged w') (hv : v.Logged v') :
    w'.Twins v' :=
  (hw.twins h.opened).symm.trans (h.trans (hv.twins h.symm.opened))

/-- **What is done to the disks of both leaves twins.** -/
theorem withDisk {d e : Disk} (h : w.Twins v) (hgrows : w.disk.Grows d)
    (hagree : Disk.AgreeOff w.KeptAt d e) :
    Twins { w with disk := d } { v with disk := e } :=
  ⟨h.opened.of_grows rfl hgrows, h.keptAt_eq, hagree⟩

/-- **A name that the journal spares leads to the same in both.** -/
theorem find_eq_ok (h : w.Twins v) {name : String} (hspares : w.Spares name) (place : Location)
    (node : Disk.Node) :
    v.disk.find name = .ok (place, node) ↔ w.disk.find name = .ok (place, node) :=
  h.agree.find_eq_ok hspares place node

/-- A name leads to something on both disks or on none. -/
theorem has_eq (h : w.Twins v) (name : String) : v.disk.has name = w.disk.has name :=
  h.agree.shape.has_eq name

end Twins

end ConfigGraft.World
