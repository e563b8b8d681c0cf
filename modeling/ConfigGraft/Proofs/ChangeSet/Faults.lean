import ConfigGraft.Proofs.ChangeSet.Step

/-!
# What a run fails with

Each part of a run has its own faults: looking for a file, for its format, and for what it holds.
None of them is about required variables, which a run speaks of only when it is through with all
files.

## Main results

* `EntryStep.halt_cases` — the halts that dealing with an entry can end with;
* `applyEntries_ne_missingRequired` — going through files does not fail for a variable.
-/

namespace ConfigGraft

/-- A fault **on access** is one that reading or writing a document ends with: the document is
malformed, or the disk refuses. -/
def Fault.OnAccess : Fault → Prop
  | .malformed .. => True
  | .io .. => True
  | _ => False

/-! ### Documents -/

namespace Document

/-- A document that cannot be loaded is a fault of the file. -/
theorem onAccess_of_load {format : Format} {disk : Disk} {path : String} {fault : Fault}
    (h : load format disk path = .error fault) : fault.OnAccess := by
  rw [load] at h
  split at h
  · split at h
    · cases h; trivial
    · split at h <;> cases h
      trivial
  · cases h

/-- A directory that cannot be made is a fault of the file. -/
theorem onAccess_of_makeRoom {disk disk' : Disk} {path : String} {fault : Fault}
    (h : makeRoom disk path = (disk', some fault)) : fault.OnAccess := by
  rw [makeRoom] at h
  split at h
  · cases h
  · split at h
    · cases h
    · split at h <;> cases h
      trivial

/-- A document that cannot be stored is a fault of the file. -/
theorem onAccess_of_store {disk disk' : Disk} {path : String} {document : Document} {fault : Fault}
    (h : store disk path document = (disk', some fault)) : fault.OnAccess := by
  rw [store] at h
  split at h
  · cases h; trivial
  · split at h
    · rename_i hroom
      cases h
      exact onAccess_of_makeRoom hroom
    · split at h <;> cases h
      trivial

end Document

/-! ### Runs -/

namespace ChangeSet

/-- The one thing that can be wrong with the path of an entry is that no file is there. -/
theorem target_eq_error {s : Setting} {disk : Disk} {entry : FileEntry} {fault : Fault}
    (h : target s disk entry = .error fault) : fault = .fileNotFound (s.pathOf entry) := by
  rw [target] at h
  split at h <;> cases h
  rfl

/-- The one thing that can be wrong with the name of an entry is that it has no known format. -/
theorem formatOf_eq_error {entry : FileEntry} {fault : Fault}
    (h : formatOf entry = .error fault) : fault = .unsupported entry.file := by
  rw [formatOf] at h
  split at h <;> cases h
  rfl

/-- **The halts that dealing with an entry can end with:** its file is refused by the same rules
that a check goes by, its document cannot be read or written, or a change cannot be made. -/
theorem EntryStep.halt_cases {s : Setting} {entry : FileEntry} {p q : Progress} {halt : Halt}
    (h : EntryStep s entry p q (some halt)) :
    (∃ fault, halt = .fault fault ∧ target s p.world.disk entry = .error fault) ∨
      (∃ fault, halt = .fault fault ∧ target s p.world.disk entry = .ok (s.pathOf entry) ∧
        formatOf entry = .error fault) ∨
      (∃ fault, halt = .fault fault ∧ fault.OnAccess ∧
        target s p.world.disk entry = .ok (s.pathOf entry) ∧ ∃ f, formatOf entry = .ok f) ∨
      ∃ crash, halt = .crash crash := by
  cases h with
  | refused htarget => exact .inl ⟨_, rfl, htarget⟩
  | unsupported htarget hformat => exact .inr (.inl ⟨_, rfl, htarget, hformat⟩)
  | unread htarget hformat _ hload =>
      exact .inr (.inr (.inl ⟨_, rfl, Document.onAccess_of_load hload, htarget, _, hformat⟩))
  | crashed => exact .inr (.inr (.inr ⟨_, rfl⟩))
  | unwritten hread _ _ hstore =>
      exact .inr (.inr (.inl
        ⟨_, rfl, Document.onAccess_of_store hstore, hread.target_eq, _, hread.formatOf_eq⟩))

/-- Going through files does not fail for a variable. -/
theorem applyEntries_ne_missingRequired (s : Setting) (entries : List FileEntry) (p : Progress)
    (names : MissingNames) :
    (applyEntries s entries p).2 ≠ some (.fault (.missingRequired names)) := by
  induction entries generalizing p with
  | nil => nofun
  | cons entry rest ih =>
      have hstep := applyEntry_step s entry p
      rw [applyEntries]
      rcases happly : applyEntry s entry p with ⟨q, - | halt⟩
      · exact ih q
      · rw [happly] at hstep
        rintro heq
        obtain rfl : halt = .fault (.missingRequired names) := Option.some.inj heq
        rcases hstep.halt_cases with ⟨_, ⟨⟩, h⟩ | ⟨_, ⟨⟩, -, h⟩ | ⟨_, ⟨⟩, h, -⟩ | ⟨_, ⟨⟩⟩
        · cases target_eq_error h
        · cases formatOf_eq_error h
        · exact h

end ChangeSet

end ConfigGraft
