import ConfigGraft.Proofs.ChangeSet.Flags
import ConfigGraft.Proofs.Disk.Growth
import ConfigGraft.Proofs.Document.Store

/-!
# What a run leaves standing

A run makes directories and writes files, and it takes nothing away: whatever stands somewhere
before the run stands there after it, a directory as a directory and a file as a file. This holds
for every run, also for one that fails.

## Main results

* `Document.grows_store` — storing takes nothing away, even where it fails;
* `ChangeSet.EntryStep.grows` — a step takes nothing away;
* `ChangeSet.grows_apply` — **a run takes nothing away.**
-/

namespace ConfigGraft

/-! ### Records -/

/-- A record takes nothing off the disk. -/
theorem World.grows_note (r : Log.Record) (w : World) : w.disk.Grows (w.note r).disk := by
  rw [note, write]
  split
  · split
    · exact .refl _
    · exact .refl _
    · exact .refl _
    · exact Disk.grows_appendAt ..
  · exact .refl _

/-- Neither do several records. -/
theorem World.Logged.grows {w v : World} (h : w.Logged v) : w.disk.Grows v.disk := by
  induction h with
  | refl => exact .refl _
  | note r _ ih => exact ih.trans (grows_note r _)

/-! ### Storing -/

namespace Document

variable {disk disk' : Disk} {path : String} {document : Document}

/-- Making room for a file takes nothing off the disk. -/
theorem grows_makeRoom (disk : Disk) (path : String) : disk.Grows (makeRoom disk path).1 :=
  makeRoom_induction (.refl disk) fun up _ => Disk.grows_makeDirectories disk up

/-- Storing takes nothing away, even where it fails. -/
theorem grows_store (disk : Disk) (path : String) (document : Document) :
    disk.Grows (store disk path document).1 := by
  rw [store]
  split
  · exact .refl disk
  · have hroom := grows_makeRoom disk path
    split
    · rename_i heq
      rwa [heq] at hroom
    · rename_i heq
      rw [heq] at hroom
      split
      · rename_i hwrite
        obtain ⟨place, htarget, rfl⟩ := Disk.writeBytes_eq_ok.1 hwrite
        exact hroom.trans (Disk.grows_put_file (Disk.target_eq_ok.1 htarget).2.2 _)
      · exact hroom

/-- Storing a document takes nothing off the disk, even where it fails. -/
theorem grows_of_store {fault? : Option Fault} (h : store disk path document = (disk', fault?)) :
    disk.Grows disk' := by
  have hgrows := grows_store disk path document
  rwa [h] at hgrows

end Document

namespace ChangeSet

/-! ### Steps and runs -/

variable {s : Setting} {entry : FileEntry} {p q : Progress}

/-- A step takes nothing away. -/
theorem EntryStep.grows {halt? : Option Halt} (h : EntryStep s entry p q halt?) :
    p.world.disk.Grows q.world.disk := by
  cases h with
  | refused => exact .refl _
  | unsupported => exact .refl _
  | unread _ _ hlogged _ => exact hlogged.grows
  | crashed hread _ hlogged => exact (hread.logged.trans hlogged).grows
  | kept hread _ hlogged => exact (hread.logged.trans hlogged).grows
  | unwritten hread _ hlogged hstore =>
      exact (hread.logged.trans hlogged).grows.trans (Document.grows_of_store hstore)
  | written hread _ hlogged hstore hreported =>
      exact ((hread.logged.trans hlogged).grows.trans (Document.grows_of_store hstore)).trans
        hreported.grows

/-- Neither do the entries of a run, one after the other. -/
theorem grows_applyEntries (s : Setting) (entries : List FileEntry) (p : Progress) :
    p.world.disk.Grows (applyEntries s entries p).1.world.disk :=
  applyEntries_invariant (fun q => p.world.disk.Grows q.world.disk)
    (fun hstep h => h.trans hstep.grows) entries (.refl _)

/-- **A run takes nothing away,** whether or not it fails. -/
theorem grows_apply (s : Setting) (entries : List FileEntry) (w : World) :
    w.disk.Grows (apply s entries w).1.disk := by
  have hgrows := grows_applyEntries s entries { world := w }
  rw [apply]
  rcases happly : applyEntries s entries { world := w } with ⟨q, - | halt⟩
  · rw [happly] at hgrows
    exact hgrows.trans (logged_conclude ..).grows
  · rw [happly] at hgrows
    exact hgrows

end ChangeSet

end ConfigGraft
