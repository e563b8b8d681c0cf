import ConfigGraft.ChangeSet.Apply
import ConfigGraft.Proofs.Disk.Parent

/-!
# Storing documents where there is a file

Storing a document makes the directory that its file is to be in. Where the name of the file leads
to something, that directory is there, so storing either overwrites the one file or leaves the disk
alone.

## Main results

* `Document.store_eq_none` — what a document is stored as;
* `Document.sameShape_store` — **storing over what is there keeps the shape of the disk.**
-/

namespace ConfigGraft.Document

variable {disk disk' : Disk} {path : String} {document : Document}

/-- What making room for a file keeps, if making directories above the file keeps it. -/
theorem makeRoom_induction {motive : Disk → Prop} (h : motive disk)
    (hmake : ∀ up, FileName.parent? path = some up → motive (disk.makeDirectories up).1) :
    motive (makeRoom disk path).1 := by
  rw [makeRoom]
  split
  · exact h
  · rename_i up hup
    split
    · exact h
    · have hmade := hmake up hup
      split
      · rename_i heq
        rwa [heq] at hmade
      · rename_i heq
        rwa [heq] at hmade

/-- What is there needs no room made for it. -/
theorem makeRoom_of_has (h : disk.has path = true) : makeRoom disk path = (disk, none) := by
  rw [makeRoom]
  split
  · rfl
  · rename_i up hup
    rw [if_pos (Disk.has_parent h hup)]

/-- A document is stored as its text, in the bytes of UTF-8, where the name of its file leads. -/
theorem store_eq_none (h : disk.has path = true)
    (hstore : store disk path document = (disk', none)) :
    ∃ text place content, document.render? = some text ∧
      disk.find path = .ok (place, .file content) ∧
      disk' = disk.put place (.file text.toUTF8) := by
  rw [store] at hstore
  rw [makeRoom_of_has h] at hstore
  split at hstore
  · cases hstore
  rename_i text htext
  simp only at hstore
  split at hstore
  · rename_i hwrite
    cases hstore
    obtain ⟨place, htarget, rfl⟩ := Disk.writeBytes_eq_ok.1 hwrite
    obtain ⟨-, hplace, hnode⟩ := Disk.target_eq_ok.1 htarget
    obtain ⟨place', hplace', hsome⟩ := Disk.has_iff.1 h
    obtain rfl : place' = place := Except.ok.inj (hplace'.symm.trans hplace)
    rcases hthere : disk.node? place' with - | - | content
    · rw [hthere] at hsome; cases hsome
    · exact absurd hthere hnode
    · exact ⟨text, place', content, htext, Disk.find_eq_ok.2 ⟨hplace, hthere⟩, rfl⟩
  · cases hstore

/-- A document that cannot be stored over what is there leaves the disk alone. -/
theorem store_eq_some {fault : Fault} (h : disk.has path = true)
    (hstore : store disk path document = (disk', some fault)) : disk' = disk := by
  rw [store] at hstore
  rw [makeRoom_of_has h] at hstore
  split at hstore
  · cases hstore; rfl
  · simp only at hstore
    split at hstore <;> cases hstore
    rfl

/-- **Storing over what is there keeps the shape of the disk.** -/
theorem sameShape_store {fault? : Option Fault} (h : disk.has path = true)
    (hstore : store disk path document = (disk', fault?)) : disk.SameShape disk' := by
  cases fault? with
  | none =>
      obtain ⟨text, place, content, -, hfind, rfl⟩ := store_eq_none h hstore
      exact Disk.sameShape_put (Disk.find_eq_ok.1 hfind).2 _
  | some fault =>
      rw [store_eq_some h hstore]
      exact .refl disk

end ConfigGraft.Document
