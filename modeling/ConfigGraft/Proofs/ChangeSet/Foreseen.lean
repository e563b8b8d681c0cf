import ConfigGraft.Proofs.ChangeSet.Step
import ConfigGraft.Proofs.Document.Store

/-!
# What a run leaves where it was

A run changes the disk as it goes. Where files have to be there, it only overwrites files, so the
disk keeps its shape, and what was found on the disk before the run is found there at every entry.

## Main results

* `Foreseen.target_eq` — in a foreseen world the same files are there;
* `EntryStep.foreseen`, `Foreseen.applyEntries` — **a step, and a run, leaves the disk as a look at
  it has foreseen.**
-/

namespace ConfigGraft.ChangeSet

variable {s : Setting} {disk : Disk}

/-- A world is **foreseen** by a look at a disk if existing files are looked for where they were:
the disk has kept its shape, and records will not change it. Where files need not exist, nothing has
to be foreseen. -/
def Foreseen (s : Setting) (disk : Disk) (w : World) : Prop :=
  s.policy.requireExistingFiles = true → disk.SameShape w.disk ∧ w.Opened

/-! ### Steps -/

/-- In a foreseen world the same files are there. -/
theorem Foreseen.target_eq {w : World} (h : Foreseen s disk w) (entry : FileEntry) :
    target s w.disk entry = target s disk entry := by
  unfold target
  cases hrequire : s.policy.requireExistingFiles with
  | false => rfl
  | true => rw [(h hrequire).1.has_eq]

/-- Where files have to be there, the file of an accepted entry is there. -/
theorem has_of_target {entry : FileEntry} {path : String}
    (hrequire : s.policy.requireExistingFiles = true) (h : target s disk entry = .ok path) :
    disk.has (s.pathOf entry) = true := by
  rw [target] at h
  split at h
  · cases h
  · rename_i hthere
    simpa [hrequire] using hthere

/-- The world before a run is foreseen by a look at its disk, if its journal is open. -/
theorem Foreseen.start {w : World} (hopen : w.Opened) : Foreseen s w.disk w :=
  fun _ => ⟨.refl w.disk, hopen⟩

/-- Records leave a disk as it was foreseen. -/
theorem Foreseen.logged {w v : World} (h : Foreseen s disk w) (hlogged : w.Logged v) :
    Foreseen s disk v := fun hrequire =>
  have ⟨hshape, hopen⟩ := h hrequire
  ⟨hshape.trans (hlogged.sameShape hopen), hlogged.opened hopen⟩

/-- Where a file had to be there and is, storing a document over it was foreseen. -/
theorem Foreseen.store {w : World} {entry : FileEntry} {path : String} {document : Document}
    {disk' : Disk} {fault? : Option Fault} (h : Foreseen s disk w)
    (htarget : target s disk entry = .ok path)
    (hstore : Document.store w.disk (s.pathOf entry) document = (disk', fault?)) :
    Foreseen s disk { w with disk := disk' } := by
  intro hrequire
  obtain ⟨hshape, hopen⟩ := h hrequire
  have hthere : w.disk.has (s.pathOf entry) = true := by
    rw [hshape.has_eq]
    exact has_of_target hrequire htarget
  have hkept := Document.sameShape_store hthere hstore
  exact ⟨hshape.trans hkept, hopen.of_sameShape rfl hkept⟩

/-- **A step leaves the disk as a look at it has foreseen.** -/
theorem EntryStep.foreseen {entry : FileEntry} {p q : Progress} {halt? : Option Halt}
    (hstep : EntryStep s entry p q halt?) (h : Foreseen s disk p.world) :
    Foreseen s disk q.world := by
  cases hstep with
  | refused => exact h
  | unsupported => exact h
  | unread _ _ hlogged _ => exact h.logged hlogged
  | crashed hread _ hlogged => exact h.logged (hread.logged.trans hlogged)
  | kept hread _ hlogged => exact h.logged (hread.logged.trans hlogged)
  | unwritten hread _ hlogged hstore =>
      exact (h.logged (hread.logged.trans hlogged)).store (h.target_eq entry ▸ hread.target_eq)
        hstore
  | written hread _ hlogged hstore hreported =>
      exact ((h.logged (hread.logged.trans hlogged)).store (h.target_eq entry ▸ hread.target_eq)
        hstore).logged hreported

/-- A run leaves the disk as a look at it has foreseen. -/
theorem Foreseen.applyEntries {p : Progress} (h : Foreseen s disk p.world)
    (entries : List FileEntry) : Foreseen s disk (applyEntries s entries p).1.world :=
  applyEntries_invariant (fun q => Foreseen s disk q.world) (fun hstep => hstep.foreseen) entries h

end ConfigGraft.ChangeSet
