import ConfigGraft.Proofs.ChangeSet.Missing
import ConfigGraft.Proofs.Document.Updates
import ConfigGraft.Proofs.World.Logged

/-!
# One step of a run

A run goes through the entries of a change set one by one. `EntryStep` lists the ways in which an
entry can be dealt with, with everything that each of them does to the progress of the run, so that
a property of runs is a case analysis on a step and an induction on the entries.

Records come in between everywhere. They are summed up by `World.Logged`.

## Main results

* `applyChanges_of_setAll_ok` — changes do to a document what `Document.setAll` does;
* `applyEntry_step` — **what a run can do with an entry;**
* `applyEntries_invariant`, `applyEntries_cons_finished` — from steps to runs.
-/

namespace ConfigGraft.ChangeSet

/-- The updates that changes stand for: their templates are replaced by the texts they expand to. -/
def Setting.updates (s : Setting) (changes : List Change) : List (KeyPath × String) :=
  changes.map fun change => (change.path, Template.text s.chain change.value)

/-! ### Changes -/

/-- What two lists of changes gather in turn, they gather as one list. -/
theorem Setting.gather_append (s : Setting) (front back : List Change) (m : MissingNames) :
    s.gather back (s.gather front m) = s.gather (front ++ back) m := by
  unfold gather
  split
  · induction front generalizing m with
    | nil => rfl
    | cons change front ih => exact ih _
  · rfl

/-- One change: its text is set, its missing names are gathered, and it is reported. -/
theorem applyChanges_cons (s : Setting) (path : String) (change : Change) (rest : List Change)
    (document : Document) (dirty : Bool) (p : Progress) :
    applyChanges s path (change :: rest) document dirty p =
      match document.set change.path (Template.text s.chain change.value) with
      | .error crash => (⟨p.world, s.gather [change] p.missing, p.summary⟩, .error (.crash crash))
      | .ok (next, changed) =>
        applyChanges s path rest next (dirty || changed)
          ⟨p.world.note (appliedRecord path change changed), s.gather [change] p.missing,
            p.summary⟩ := by
  have hgather : s.gather [change] p.missing = (Template.expand s.chain
      s.policy.stopOnMissingRequired change.value p.missing).2 := by
    rw [Setting.gather]
    cases s.policy.stopOnMissingRequired with
    | true => rfl
    | false => exact (Template.expand_lax _ _ _).symm
  rw [applyChanges, hgather,
    ← Template.expand_fst s.chain s.policy.stopOnMissingRequired change.value p.missing]
  rfl

/-- **Changes do to a document what setting their updates does.** All that they do to the world is
to report it, and all their missing names are gathered. -/
theorem applyChanges_of_setAll_ok {s : Setting} {path : String} {changes : List Change}
    {document last : Document} {changed : Bool}
    (h : document.setAll (s.updates changes) = .ok (last, changed)) (dirty : Bool) (p : Progress) :
    ∃ v, p.world.Logged v ∧ applyChanges s path changes document dirty p =
      (⟨v, s.gather changes p.missing, p.summary⟩, .ok (last, dirty || changed)) := by
  induction changes generalizing document changed dirty p with
  | nil =>
      cases h
      exact ⟨p.world, .refl _, by simp [applyChanges, Setting.gather, gatherMissing]⟩
  | cons change rest ih =>
      obtain ⟨next, first, more, hset, hrest, rfl⟩ := Document.setAll_cons_eq_ok.1 h
      simp only at hset
      obtain ⟨v, hlogged, hv⟩ := ih hrest (dirty || first)
        ⟨p.world.note (appliedRecord path change first), s.gather [change] p.missing, p.summary⟩
      refine ⟨v, .trans (.note _ (.refl _)) hlogged, ?_⟩
      rw [applyChanges_cons, hset]
      simp only [hv, s.gather_append, List.singleton_append, Bool.or_assoc]

/-- Changes that cannot all be made end with the crash that setting their updates ends with. -/
theorem applyChanges_of_setAll_error {s : Setting} {path : String} {changes : List Change}
    {document : Document} {crash : SealedMapping}
    (h : document.setAll (s.updates changes) = .error crash) (dirty : Bool) (p : Progress) :
    ∃ v missing, p.world.Logged v ∧ applyChanges s path changes document dirty p =
      (⟨v, missing, p.summary⟩, .error (.crash crash)) := by
  induction changes generalizing document dirty p with
  | nil => cases h
  | cons change rest ih =>
      rw [Setting.updates, List.map_cons, Document.setAll, ← Setting.updates] at h
      rw [applyChanges_cons]
      rcases hset : document.set change.path (Template.text s.chain change.value) with
        first | ⟨next, changed⟩
      · rw [hset] at h
        cases h
        exact ⟨p.world, _, .refl _, rfl⟩
      · rcases hrest : next.setAll (s.updates rest) with crash' | ⟨last, more⟩
        · simp only [hset, hrest] at h
          cases h
          obtain ⟨v, missing, hlogged, hv⟩ := ih hrest (dirty || changed)
            ⟨p.world.note (appliedRecord path change changed), s.gather [change] p.missing,
              p.summary⟩
          exact ⟨v, missing, .trans (.note _ (.refl _)) hlogged, hv⟩
        · simp only [hset, hrest] at h
          cases h

/-! ### Entries -/

/-- A file whose document is read goes on with the changes. -/
theorem applyFile_of_load {s : Setting} {path : String} {format : Format} {changes : List Change}
    {p : Progress} {document : Document}
    (h : Document.load format p.world.disk path = .ok document) :
    applyFile s path format changes p =
      match applyChanges s path changes document false p with
      | (p, .error halt) => (p, .error halt)
      | (p, .ok (_, false)) => (p, .ok false)
      | (p, .ok (document, true)) =>
        match Document.store p.world.disk path document with
        | (disk, some fault) => (p.withDisk disk, .error (.fault fault))
        | (disk, none) => ((p.withDisk disk).note (updatedRecord path format), .ok true) := by
  rewrite [applyFile, h]
  rfl

/-- An entry was found right and its document was read, in a world that the run had reached with
no more than records. -/
structure EntryRead (s : Setting) (entry : FileEntry) (p : Progress) (format : Format) (w : World)
    (document : Document) : Prop where
  target_eq : target s p.world.disk entry = .ok (s.pathOf entry)
  formatOf_eq : formatOf entry = .ok format
  logged : p.world.Logged w
  load_eq : Document.load format w.disk (s.pathOf entry) = .ok document

/-- **What a run can do with an entry,** by the progress and the halt that come of it. -/
inductive EntryStep (s : Setting) (entry : FileEntry) (p : Progress) :
    Progress → Option Halt → Prop
  /-- Its file is not there, and had to be. -/
  | refused {fault : Fault} :
      target s p.world.disk entry = .error fault → EntryStep s entry p p (some (.fault fault))
  /-- Its file is in no known format. -/
  | unsupported {fault : Fault} :
      target s p.world.disk entry = .ok (s.pathOf entry) → formatOf entry = .error fault →
      EntryStep s entry p p (some (.fault fault))
  /-- Its document cannot be read. -/
  | unread {format : Format} {w : World} {fault : Fault} :
      target s p.world.disk entry = .ok (s.pathOf entry) → formatOf entry = .ok format →
      p.world.Logged w → Document.load format w.disk (s.pathOf entry) = .error fault →
      EntryStep s entry p { p with world := w } (some (.fault fault))
  /-- A change is below a mapping that is closed to changes. -/
  | crashed {format : Format} {w v : World} {before : Document} {crash : SealedMapping}
      {missing : MissingNames} :
      EntryRead s entry p format w before →
      before.setAll (s.updates entry.changes) = .error crash → w.Logged v →
      EntryStep s entry p { p with world := v, missing } (some (.crash crash))
  /-- No change makes a difference, and nothing is written. -/
  | kept {format : Format} {w v : World} {before after : Document} :
      EntryRead s entry p format w before →
      before.setAll (s.updates entry.changes) = .ok (after, false) → w.Logged v →
      EntryStep s entry p
        ⟨v, s.gather entry.changes p.missing, ⟨p.summary.processed + 1, p.summary.modified⟩⟩ none
  /-- The changed document cannot be written. -/
  | unwritten {format : Format} {w v : World} {before after : Document} {disk : Disk}
      {fault : Fault} :
      EntryRead s entry p format w before →
      before.setAll (s.updates entry.changes) = .ok (after, true) → w.Logged v →
      Document.store v.disk (s.pathOf entry) after = (disk, some fault) →
      EntryStep s entry p ⟨{ v with disk }, s.gather entry.changes p.missing, p.summary⟩
        (some (.fault fault))
  /-- The changed document is written. -/
  | written {format : Format} {w v u : World} {before after : Document} {disk : Disk} :
      EntryRead s entry p format w before →
      before.setAll (s.updates entry.changes) = .ok (after, true) → w.Logged v →
      Document.store v.disk (s.pathOf entry) after = (disk, none) →
      World.Logged { v with disk } u →
      EntryStep s entry p
        ⟨u, s.gather entry.changes p.missing, ⟨p.summary.processed + 1, p.summary.modified + 1⟩⟩
        none

/-- The path of an accepted entry is its name as seen from the base directory. -/
theorem target_eq_ok {s : Setting} {disk : Disk} {entry : FileEntry} {path : String}
    (h : target s disk entry = .ok path) : path = s.pathOf entry := by
  rw [target] at h
  split at h
  · cases h
  · exact (Except.ok.inj h).symm

/-- **A run deals with an entry in one of these ways.** -/
theorem applyEntry_step (s : Setting) (entry : FileEntry) (p : Progress) :
    EntryStep s entry p (applyEntry s entry p).1 (applyEntry s entry p).2 := by
  rw [applyEntry]
  rcases htarget : target s p.world.disk entry with fault | path
  · exact .refused htarget
  obtain rfl := target_eq_ok htarget
  rcases hformat : formatOf entry with fault | format
  · exact .unsupported htarget hformat
  simp only
  generalize hq : p.note (processingRecord (s.pathOf entry) format entry.changes.length) = q
  have hnoted : p.world.Logged q.world := by
    rw [← hq]
    exact .note _ (.refl _)
  obtain ⟨hmissing, hsummary⟩ : q.missing = p.missing ∧ q.summary = p.summary := by
    rw [← hq]
    exact ⟨rfl, rfl⟩
  have hprogress : q = { p with world := q.world } := by
    rw [← hmissing, ← hsummary]
  rcases hload : Document.load format q.world.disk (s.pathOf entry) with fault | before
  · simp only [applyFile, hload]
    rw [hprogress]
    exact .unread htarget hformat hnoted hload
  have hread : EntryRead s entry p format q.world before := ⟨htarget, hformat, hnoted, hload⟩
  rcases hset : before.setAll (s.updates entry.changes) with crash | ⟨after, dirty⟩
  · obtain ⟨v, missing, hlogged, hrun⟩ := applyChanges_of_setAll_error hset false q
    rw [applyFile_of_load hload, hrun, hsummary]
    exact .crashed hread hset hlogged
  obtain ⟨v, hlogged, hrun⟩ := applyChanges_of_setAll_ok hset false q
  rw [applyFile_of_load hload, hrun, hsummary, hmissing]
  cases dirty with
  | false => exact .kept hread hset hlogged
  | true =>
      simp only [Bool.or_true]
      rcases hstore : Document.store v.disk (s.pathOf entry) after with ⟨disk, - | fault⟩
      · exact .written hread hset hlogged hstore (.note _ (.refl _))
      · exact .unwritten hread hset hlogged hstore

/-! ### Runs -/

/-- **What every step keeps is kept by a run.** -/
theorem applyEntries_invariant {s : Setting} (inv : Progress → Prop)
    (hstep : ∀ {entry : FileEntry} {p q : Progress} {halt? : Option Halt},
      EntryStep s entry p q halt? → inv p → inv q)
    (entries : List FileEntry) {p : Progress} (h : inv p) : inv (applyEntries s entries p).1 := by
  induction entries generalizing p with
  | nil => exact h
  | cons entry rest ih =>
      have hentry := hstep (applyEntry_step s entry p) h
      rw [applyEntries]
      generalize applyEntry s entry p = x at hentry ⊢
      rcases x with ⟨q, - | halt⟩
      · exact ih hentry
      · exact hentry

/-- A run that gets through all entries takes a step for the first and gets through the others. -/
theorem applyEntries_cons_finished {s : Setting} {entry : FileEntry} {rest : List FileEntry}
    {p q : Progress} (h : applyEntries s (entry :: rest) p = (q, none)) :
    ∃ mid, applyEntry s entry p = (mid, none) ∧ EntryStep s entry p mid none ∧
      applyEntries s rest mid = (q, none) := by
  have hstep := applyEntry_step s entry p
  rw [applyEntries] at h
  rcases happly : applyEntry s entry p with ⟨mid, - | halt⟩
  · rw [happly] at h hstep
    exact ⟨mid, rfl, hstep, h⟩
  · rw [happly] at h
    cases h

/-! ### The journal -/

/-- No step moves the journal. -/
theorem EntryStep.sink_eq {s : Setting} {entry : FileEntry} {p q : Progress} {halt? : Option Halt}
    (h : EntryStep s entry p q halt?) : q.world.journal.sink = p.world.journal.sink := by
  cases h with
  | refused => rfl
  | unsupported => rfl
  | unread _ _ hlogged _ => exact hlogged.sink_eq
  | crashed hread _ hlogged => exact (hread.logged.trans hlogged).sink_eq
  | kept hread _ hlogged => exact (hread.logged.trans hlogged).sink_eq
  | unwritten hread _ hlogged _ => exact (hread.logged.trans hlogged).sink_eq
  | written hread _ hlogged _ hreported =>
      exact hreported.sink_eq.trans (hread.logged.trans hlogged).sink_eq

/-- No run moves the journal. -/
theorem sink_applyEntries (s : Setting) (entries : List FileEntry) (p : Progress) :
    (applyEntries s entries p).1.world.journal.sink = p.world.journal.sink :=
  applyEntries_invariant (fun q => q.world.journal.sink = p.world.journal.sink)
    (fun hstep h => hstep.sink_eq.trans h) entries rfl

end ConfigGraft.ChangeSet
