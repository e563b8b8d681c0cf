import ConfigGraft.Proofs.ChangeSet.Fold
import ConfigGraft.Proofs.ChangeSet.Sequence
import ConfigGraft.Proofs.Document.Room
import ConfigGraft.Proofs.Document.Stored
import ConfigGraft.Proofs.Program
import ConfigGraft.Proofs.World.Twins

/-!
# What a run leaves alone

A run names the files that it may write: those of the entries that have changes. Whatever it does to
the disk happens under one of these names. It writes the file that the name leads to, and makes
directories on the way of the name, and every other place is left as it was. This holds for each
step, however it ends, so it holds for runs that fail as well.

A name with `..` in it can lead nowhere at first and to an old file later on, when the run has made
the directories that the name goes through. This is the one way in which a run gets at a file that
none of its names led to before.

## Main results

* `Document.touch_store`, `EntryStep.touch` — what is done to the disk is done under a name;
* `touch_applyEntries` — **a run touches no place but under the names of its targets;**
* `apply_keeps_off_targets` — other files keep what they hold, nothing is removed and, where files
  have to be there, nothing is made. A check leaves the disk alone.
-/

namespace ConfigGraft

/-! ### Touching a place -/

/-- What is done at a place under some names: nothing, or a file is written to which one of the
names leads, or a directory is made on the way of one. -/
inductive Disk.Touch (names : List String) (d e : Disk) (place : Location) : Prop
  | kept : e.node? place = d.node? place → Touch names d e place
  | written {name : String} {content : ByteArray} :
      name ∈ names → e.locate name = .ok place → d.node? place ≠ some .directory →
      e.node? place = some (.file content) → Touch names d e place
  | made {name : String} :
      name ∈ names → d.node? place = none → e.node? place = some .directory →
      place ∈ way (d.start name) (FileName.parts name) → Touch names d e place

namespace Disk.Touch

variable {names more : List String} {d e f : Disk} {place : Location}

/-- What names may touch, more names may touch. -/
theorem mono (h : Touch names d e place) (hsub : names ⊆ more) : Touch more d e place := by
  cases h with
  | kept hsame => exact .kept hsame
  | written hname hplace hdirectory hfile => exact .written (hsub hname) hplace hdirectory hfile
  | made hname hnone hdirectory hway => exact .made (hsub hname) hnone hdirectory hway

/-- What is done at a place first and last, if nothing is taken away in between. -/
theorem trans (h : Touch names d e place) (h' : Touch names e f place) (hgrows : d.Grows e)
    (hgrows' : e.Grows f) : Touch names d f place := by
  cases h' with
  | kept hsame =>
      cases h with
      | kept hfirst => exact .kept (hsame.trans hfirst)
      | written hname hplace hdirectory hfile =>
          exact .written hname (hgrows'.locate_eq_ok hplace) hdirectory (hsame.trans hfile)
      | made hname hnone hdirectory hway => exact .made hname hnone (hsame.trans hdirectory) hway
  | written hname hplace hdirectory hfile =>
      exact .written hname hplace (fun hd => hdirectory (hgrows.directory hd)) hfile
  | @made name hname hnone hdirectory hway =>
      have hstart : e.start name = d.start name := by rw [start, start, hgrows.here]
      have hbefore : d.node? place = none := by
        rw [Option.eq_none_iff_forall_ne_some]
        intro node hnode
        obtain ⟨node', hnode', -⟩ := hgrows.kind place node hnode
        rw [hnone] at hnode'
        cases hnode'
      exact .made hname hbefore hdirectory (hstart ▸ hway)

end Disk.Touch

/-- Room that was made for a file is made under its name. -/
theorem Disk.RoomMade.touch {off : Location → Prop} {names : List String} {name : String}
    {d e : Disk} {place : Location} (h : RoomMade off name d e) (hname : name ∈ names)
    (hplace : ¬ off place) : Touch names d e place := by
  rcases h.node?_eq_or place hplace with hsame | ⟨hnone, hdirectory, hway⟩
  · exact .kept hsame
  · exact .made hname hnone hdirectory hway

/-! ### Storing -/

namespace Document

variable {disk disk' : Disk} {path : String} {document : Document} {place : Location}

/-- Storing that succeeds has made room for a file and written it. -/
theorem roomMade_of_store (h : store disk path document = (disk', none))
    (hplace : disk'.locate path = .ok place) :
    Disk.RoomMade (fun other => other = place) path disk disk' := by
  have hroom : Disk.RoomMade (fun other => other = place) path disk (makeRoom disk path).1 :=
    roomMade_makeRoom disk path
  rw [store] at h
  split at h
  · cases h
  split at h
  · cases h
  rename_i text _ _ roomy heq
  rw [heq] at hroom
  split at h
  · rename_i hwrite
    cases h
    obtain ⟨target, htarget, rfl⟩ := Disk.writeBytes_eq_ok.1 hwrite
    obtain ⟨-, hlocate, hnode⟩ := Disk.target_eq_ok.1 htarget
    have hsame := (Disk.sameDirectories_put hnode text.toUTF8).locate_eq_ok.2 hlocate
    obtain rfl : target = place := Except.ok.inj (hsame.symm.trans hplace)
    refine hroom.trans ⟨rfl, fun other hother => .inl ?_⟩
    rw [Disk.node?_put (Disk.ne_nil_of_ne_directory hnode), if_neg hother]
  · cases h

/-- **Storing touches no place but under the name of the file,** even where it fails. -/
theorem touch_store {names : List String} {fault? : Option Fault} (hpath : path ∈ names)
    (h : store disk path document = (disk', fault?)) (place : Location) :
    Disk.Touch names disk disk' place := by
  cases fault? with
  | some fault =>
      have hroom : Disk.RoomMade (fun _ => False) path disk disk' := roomMade_store h
      exact hroom.touch hpath id
  | none =>
      obtain ⟨text, target, -, hstored⟩ := stored_of_store h
      by_cases htarget : place = target
      · subst htarget
        refine .written hpath hstored.locate_eq (fun hdirectory => ?_) hstored.node?_eq
        have hstill := (grows_of_store h).directory hdirectory
        rw [hstored.node?_eq] at hstill
        cases hstill
      · exact (roomMade_of_store h hstored.locate_eq).touch hpath htarget

end Document

namespace ChangeSet

variable {s : Setting} {entry : FileEntry} {entries : List FileEntry} {p q : Progress}
  {place : Location}

/-! ### Steps and runs -/

/-- The names of the files that a run may write. -/
def Setting.targets (s : Setting) (entries : List FileEntry) : List String :=
  (entries.filter fun entry => !entry.changes.isEmpty).map s.pathOf

/-- The targets of a change set are the paths of the entries that have changes. -/
theorem Setting.mem_targets {name : String} :
    name ∈ s.targets entries ↔
      ∃ entry ∈ entries, entry.changes ≠ [] ∧ s.pathOf entry = name := by
  simp [targets, and_assoc]

/-- No changes make no difference. -/
theorem changes_ne_nil {before after : Document}
    (h : before.setAll (s.updates entry.changes) = .ok (after, true)) : entry.changes ≠ [] := by
  intro hnil
  rw [hnil] at h
  cases h

/-- **A step touches no place but under the name of its file,** and only if it has changes. -/
theorem EntryStep.touch {halt? : Option Halt} (h : EntryStep s entry p q halt?)
    (hplace : ¬ p.world.KeptAt place) :
    Disk.Touch (s.targets [entry]) p.world.disk q.world.disk place := by
  have hname (hchanges : entry.changes ≠ []) : s.pathOf entry ∈ s.targets [entry] :=
    Setting.mem_targets.2 ⟨entry, List.mem_singleton_self entry, hchanges, rfl⟩
  cases h with
  | refused => exact .kept rfl
  | unsupported => exact .kept rfl
  | unread _ _ hlogged _ => exact .kept (hlogged.node?_eq hplace)
  | crashed hread _ hlogged => exact .kept ((hread.logged.trans hlogged).node?_eq hplace)
  | kept hread _ hlogged => exact .kept ((hread.logged.trans hlogged).node?_eq hplace)
  | unwritten hread hset hlogged hstore =>
      have hv := hread.logged.trans hlogged
      exact .trans (.kept (hv.node?_eq hplace))
        (Document.touch_store (hname (changes_ne_nil hset)) hstore place) hv.grows
        (Document.grows_of_store hstore)
  | written hread hset hlogged hstore hreported =>
      have hv := hread.logged.trans hlogged
      have hstored := Document.grows_of_store hstore
      have hkept : ¬ World.KeptAt _ place := fun hkept => hplace (hv.sink_eq.symm.trans hkept)
      have htouch := Disk.Touch.trans (.kept (hv.node?_eq hplace))
        (Document.touch_store (hname (changes_ne_nil hset)) hstore place) hv.grows hstored
      exact htouch.trans (.kept (hreported.node?_eq hkept)) (hv.grows.trans hstored)
        hreported.grows

/-- **A run touches no place but under the names of its targets,** however it ends. -/
theorem touch_applyEntries (s : Setting) (entries : List FileEntry) {p : Progress}
    (hplace : ¬ p.world.KeptAt place) :
    Disk.Touch (s.targets entries) p.world.disk (applyEntries s entries p).1.world.disk place := by
  induction entries generalizing p with
  | nil => exact .kept rfl
  | cons entry rest ih =>
      have hstep := applyEntry_step s entry p
      have hfirst : s.targets [entry] ⊆ s.targets (entry :: rest) := by
        intro name hname
        obtain ⟨other, hother, hchanges⟩ := Setting.mem_targets.1 hname
        exact Setting.mem_targets.2 ⟨other, by simpa using .inl (by simpa using hother), hchanges⟩
      have hrest : s.targets rest ⊆ s.targets (entry :: rest) := by
        intro name hname
        obtain ⟨other, hother, hchanges⟩ := Setting.mem_targets.1 hname
        exact Setting.mem_targets.2 ⟨other, List.mem_cons_of_mem _ hother, hchanges⟩
      rw [applyEntries]
      generalize applyEntry s entry p = x at hstep ⊢
      rcases x with ⟨mid, - | halt⟩
      · have hmid : ¬ mid.world.KeptAt place := fun hkept => hplace (hstep.sink_eq.symm.trans hkept)
        exact ((hstep.touch hplace).mono hfirst).trans ((ih hmid).mono hrest) hstep.grows
          (grows_applyEntries s rest mid)
      · exact (hstep.touch hplace).mono hfirst

/-- A run over files that have to be there leaves the disk in its shape. -/
theorem sameShape_apply (hrequire : s.policy.requireExistingFiles = true) {w : World}
    (hopen : w.Opened) : w.disk.SameShape (apply s entries w).1.disk := by
  have hforeseen := Foreseen.applyEntries (p := { world := w }) (.start (s := s) hopen) entries
  obtain ⟨hshape, hopened⟩ := hforeseen hrequire
  exact hshape.trans ((logged_apply s entries w).sameShape hopened)

/-- **A run touches only its targets,** however it ends. A file that was there holds what it held,
unless the journal is kept in it or an entry with changes leads to it. The entry led there before
the run, or else it led nowhere, and has `..` in its name to get to an old file of a tree. Nothing
is removed, and nothing is made where files have to be there. A check leaves the disk as it was. -/
theorem apply_keeps_off_targets (s : Setting) (entries : List FileEntry) {w : World}
    (hopen : w.Opened) :
    (∀ place content, w.disk.node? place = some (.file content) → ¬ w.KeptAt place →
      (apply s entries w).1.disk.node? place = some (.file content) ∨
      ∃ entry ∈ entries, entry.changes ≠ [] ∧
        (apply s entries w).1.disk.locate (s.pathOf entry) = .ok place ∧
        (w.disk.locate (s.pathOf entry) = .ok place ∨
          s.policy.requireExistingFiles = false ∧ w.disk.has (s.pathOf entry) = false ∧
            (w.disk.IsTree → ".." ∈ FileName.parts (s.pathOf entry)))) ∧
    w.disk.Grows (apply s entries w).1.disk ∧
    (s.policy.requireExistingFiles = true → w.disk.SameShape (apply s entries w).1.disk) ∧
    (∀ place, ¬ w.KeptAt place →
      (Program.runCheck s entries w).1.disk.node? place = w.disk.node? place) ∧
    ((∀ place, ¬ w.KeptAt place) → (Program.runCheck s entries w).1.disk = w.disk) := by
  have hgrows := grows_apply s entries w
  have hchecked := Program.logged_runCheck s entries w
  refine ⟨fun place content hfile hplace => ?_, hgrows,
    fun hrequire => sameShape_apply hrequire hopen,
    fun place hplace => hchecked.node?_eq hplace, hchecked.disk_eq⟩
  have hlogged := logged_apply s entries w
  have hend : ¬ World.KeptAt (applyEntries s entries { world := w }).1.world place :=
    fun hkept => hplace ((sink_applyEntries s entries { world := w }).symm.trans hkept)
  have htouch := (touch_applyEntries s entries (p := { world := w }) hplace).trans
    (.kept (hlogged.node?_eq hend)) (grows_applyEntries ..) hlogged.grows
  cases htouch with
  | kept hsame => exact .inl (hsame.trans hfile)
  | made _ hnone =>
      rw [hfile] at hnone
      cases hnone
  | @written name _ hname hlocate _ _ =>
      obtain ⟨entry, hentry, hchanges, rfl⟩ := Setting.mem_targets.1 hname
      refine .inr ⟨entry, hentry, hchanges, hlocate, ?_⟩
      rcases hbefore : w.disk.locate (s.pathOf entry) with fault | other
      · refine .inr ⟨?_, ?_, fun htree => ?_⟩
        · rw [← Bool.not_eq_true]
          intro hrequire
          rw [(sameShape_apply hrequire hopen).locate_eq, hbefore] at hlocate
          cases hlocate
        · rw [Disk.has, Disk.find, hbefore]
        · apply Decidable.byContradiction
          intro hup
          have hled := htree.locate_of_grows hgrows hfile hup hlocate
          rw [hbefore] at hled
          cases hled
      · exact .inl (Except.ok.inj ((hgrows.locate_eq_ok hbefore).symm.trans hlocate) ▸ rfl)

/-- The run over the sample touches no file but its own. -/
theorem apply_keeps_off_sampleEntry :
    (∀ place content, sampleWorld.disk.node? place = some (.file content) →
      ¬ sampleWorld.KeptAt place →
      (apply {} [sampleEntry] sampleWorld).1.disk.node? place = some (.file content) ∨
      ∃ entry ∈ [sampleEntry], entry.changes ≠ [] ∧
        (apply {} [sampleEntry] sampleWorld).1.disk.locate (Setting.pathOf {} entry) = .ok place ∧
        (sampleWorld.disk.locate (Setting.pathOf {} entry) = .ok place ∨
          ({} : Setting).policy.requireExistingFiles = false ∧
          sampleWorld.disk.has (Setting.pathOf {} entry) = false ∧
          (sampleWorld.disk.IsTree → ".." ∈ FileName.parts (Setting.pathOf {} entry)))) ∧
    sampleWorld.disk.Grows (apply {} [sampleEntry] sampleWorld).1.disk ∧
    (({} : Setting).policy.requireExistingFiles = true →
      sampleWorld.disk.SameShape (apply {} [sampleEntry] sampleWorld).1.disk) ∧
    (∀ place, ¬ sampleWorld.KeptAt place →
      (Program.runCheck {} [sampleEntry] sampleWorld).1.disk.node? place =
        sampleWorld.disk.node? place) ∧
    ((∀ place, ¬ sampleWorld.KeptAt place) →
      (Program.runCheck {} [sampleEntry] sampleWorld).1.disk = sampleWorld.disk) :=
  apply_keeps_off_targets {} [sampleEntry] fun _ hkept => by cases hkept

end ChangeSet

end ConfigGraft
