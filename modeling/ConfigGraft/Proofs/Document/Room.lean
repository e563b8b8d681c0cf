import ConfigGraft.Proofs.Disk.Room
import ConfigGraft.Proofs.Document.Store

/-!
# Storing documents where there may be no file

Storing a document makes the directory that its file is to be in, if it is not there, and then
writes the file. It can fail before anything is done, while the directory is made, or when the file
is to be written. In each case the files are left as they are, and all that is new are directories
on the way of the name.

## Main results

* `Document.store_agree` — storing a document on disks that agree ends in the same way, and leaves
  disks that agree;
* `Document.roomMade_store` — **storing that fails has made room at most;**
* `Document.isTree_store` — a tree stays a tree.
-/

namespace ConfigGraft.Document

variable {off : Location → Prop} {d e disk disk' : Disk} {path : String}

/-! ### On disks that agree -/

/-- Making room fails on both disks or on none, and keeps them in agreement. -/
theorem makeRoom_agree (h : Disk.AgreeOff off d e) (path : String) :
    (makeRoom e path).2 = (makeRoom d path).2 ∧
      Disk.AgreeOff off (makeRoom d path).1 (makeRoom e path).1 := by
  unfold makeRoom
  cases FileName.parent? path with
  | none => exact ⟨rfl, h⟩
  | some up =>
      dsimp only
      rw [h.shape.has_eq]
      split
      · exact ⟨rfl, h⟩
      · obtain ⟨hcause, hmade⟩ := h.makeDirectories up
        generalize d.makeDirectories up = x at hcause hmade ⊢
        generalize e.makeDirectories up = y at hcause hmade ⊢
        obtain ⟨⟨d', cause?⟩, e', cause?'⟩ := x, y
        obtain rfl : cause?' = cause? := hcause
        cases cause?' with
        | none => exact ⟨rfl, hmade⟩
        | some cause => exact ⟨rfl, hmade⟩

/-- **Storing a document on both disks leaves them in agreement,** and ends in the same way. -/
theorem store_agree (h : Disk.AgreeOff off d e) (path : String) (document : Document) :
    (store e path document).2 = (store d path document).2 ∧
      Disk.AgreeOff off (store d path document).1 (store e path document).1 := by
  unfold store
  cases document.render? with
  | none => exact ⟨rfl, h⟩
  | some text =>
      dsimp only
      obtain ⟨hfault, hroom⟩ := makeRoom_agree h path
      generalize makeRoom d path = x at hfault hroom ⊢
      generalize makeRoom e path = y at hfault hroom ⊢
      obtain ⟨⟨d', fault?⟩, e', fault?'⟩ := x, y
      obtain rfl : fault?' = fault? := hfault
      cases fault?' with
      | some fault => exact ⟨rfl, hroom⟩
      | none =>
          dsimp only at hroom ⊢
          rcases hroom.writeBytes path text.toUTF8 with
            ⟨d'', e'', hd, he, hwritten⟩ | ⟨cause, hd, he⟩
          · rw [hd, he]
            exact ⟨rfl, hwritten⟩
          · rw [hd, he]
            exact ⟨rfl, hroom⟩

/-! ### What is new -/

/-- What is made to make room are directories on the way of the path. -/
theorem roomMade_makeRoom (disk : Disk) (path : String) :
    Disk.RoomMade off path disk (makeRoom disk path).1 :=
  makeRoom_induction (Disk.AgreeOff.refl disk).roomMade fun _ hup =>
    Disk.roomMade_makeDirectories (Disk.above_parent? hup) disk

/-- **Storing that fails has made room at most.** -/
theorem roomMade_store {document : Document} {fault : Fault}
    (h : store disk path document = (disk', some fault)) : Disk.RoomMade off path disk disk' := by
  have hroom : Disk.RoomMade off path disk (makeRoom disk path).1 := roomMade_makeRoom disk path
  rw [store] at h
  split at h
  · cases h
    exact (Disk.AgreeOff.refl disk).roomMade
  · split at h
    · rename_i heq
      cases h
      rwa [heq] at hroom
    · rename_i heq
      rw [heq] at hroom
      split at h
      · cases h
      · cases h
        exact hroom

/-- A tree stays a tree when a document is stored. -/
theorem isTree_store {document : Document} {fault? : Option Fault} (htree : disk.IsTree)
    (h : store disk path document = (disk', fault?)) : disk'.IsTree := by
  have hroom : (makeRoom disk path).1.IsTree :=
    makeRoom_induction htree fun up _ => htree.makeDirectories up
  rw [store] at h
  split at h
  · cases h
    exact htree
  · split at h
    · rename_i heq
      cases h
      rwa [heq] at hroom
    · rename_i heq
      rw [heq] at hroom
      split at h
      · rename_i hwrite
        cases h
        exact hroom.writeBytes hwrite
      · cases h
        exact hroom

end ConfigGraft.Document
