import ConfigGraft.Proofs.Document.Content
import ConfigGraft.Proofs.Document.Store
import ConfigGraft.Proofs.World.Logged

/-!
# Files that a document was stored in

Before a document is stored, the name of its file need not lead anywhere, since storing makes the
directories that are missing. Afterwards it leads to a file with the text of the document. This
stays so while a run only writes records to other files. The file can be loaded if its text can be
read, and it can be written again.

## Main results

* `Document.stored_of_store` — a document that is stored is in a file where its name leads;
* `Disk.Stored.load_eq_ok` — **what is stored is loaded as what its text is read as;**
* `Disk.Stored.store_eq` — over what is stored, a document can be stored again.
-/

namespace ConfigGraft

/-- A text **is stored** at a place, under a name, if it is in the file there and the name is one to
write the file by. -/
structure Disk.Stored (disk : Disk) (name : String) (place : Location) (text : String) : Prop where
  target_eq : disk.target name = .ok place
  node?_eq : disk.node? place = some (.file text.toUTF8)

namespace Disk.Stored

variable {disk : Disk} {name text : String} {place : Location}

/-- The name leads to the place. -/
theorem locate_eq (h : disk.Stored name place text) : disk.locate name = .ok place :=
  (Disk.target_eq_ok.1 h.target_eq).2.1

/-- The file with the text is found by the name. -/
theorem find_eq (h : disk.Stored name place text) :
    disk.find name = .ok (place, .file text.toUTF8) :=
  Disk.find_eq_ok.2 ⟨h.locate_eq, h.node?_eq⟩

/-- So the file is there. -/
theorem has_eq (h : disk.Stored name place text) : disk.has name = true := by
  rw [Disk.has, h.find_eq]

/-- Records elsewhere leave a text stored. -/
theorem logged {w v : World} (h : w.disk.Stored name place text) (hlogged : w.Logged v)
    (hspares : v.Spares name) : v.disk.Stored name place text := by
  have hsink := hlogged.spares_iff.1 hspares place h.locate_eq
  exact ⟨hlogged.sameDirectories.target_eq_ok.2 h.target_eq,
    (hlogged.node?_eq hsink).trans h.node?_eq⟩

/-- **What is stored is loaded as what its text is read as.** -/
theorem load_eq_ok {document : Document} (h : disk.Stored name place text)
    (htext : document.render? = some text) {other : Document} :
    Document.load document.format disk name = .ok other ↔
      Document.parse document.format text = .ok other := by
  rw [Document.load_of_find h.find_eq, Document.ofBytes?_render htext]
  cases Document.parse document.format text <;> simp [Except.toOption]

/-- Over what is stored, a document can be stored again. -/
theorem store_eq {document : Document} {text' : String} (h : disk.Stored name place text)
    (htext : document.render? = some text') :
    Document.store disk name document = (disk.put place (.file text'.toUTF8), none) := by
  have hwrite : disk.writeBytes name text'.toUTF8 = .ok (disk.put place (.file text'.toUTF8)) :=
    Disk.writeBytes_eq_ok.2 ⟨place, h.target_eq, rfl⟩
  simp only [Document.store, htext, Document.makeRoom_of_has h.has_eq, hwrite]

end Disk.Stored

/-- **A document that is stored is in a file where its name leads.** -/
theorem Document.stored_of_store {disk disk' : Disk} {path : String} {document : Document}
    (h : Document.store disk path document = (disk', none)) :
    ∃ text place, document.render? = some text ∧ disk'.Stored path place text := by
  rw [Document.store] at h
  split at h
  · cases h
  rename_i text htext
  split at h
  · cases h
  rename_i roomy _
  split at h
  · rename_i hwrite
    cases h
    obtain ⟨place, htarget, rfl⟩ := Disk.writeBytes_eq_ok.1 hwrite
    obtain ⟨-, -, hnode⟩ := Disk.target_eq_ok.1 htarget
    have hsame := Disk.sameDirectories_put hnode text.toUTF8
    refine ⟨text, place, htext, hsame.target_eq_ok.2 htarget, ?_⟩
    rw [Disk.node?_put (Disk.ne_nil_of_ne_directory hnode), if_pos rfl]
  · cases h

end ConfigGraft
