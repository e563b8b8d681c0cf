import ConfigGraft.Proofs.ChangeSet.Fold
import ConfigGraft.Proofs.ChangeSet.Growth
import ConfigGraft.Proofs.Document.Room
import ConfigGraft.Proofs.World.Twins

/-!
# Runs from twin worlds

A run that goes on behind other entries and a run that starts there do the same to the files. What
differs is what they have counted and gathered so far, and what they have recorded. So the two runs
go through twin worlds, and the counts of the one stay ahead of those of the other by the same
numbers. This takes that no name of an entry leads to the journal.

## Main results

* `applyFile_ahead`, `applyEntry_ahead` — one file and one entry in twin worlds;
* `applyEntries_ahead` — **runs from twin worlds do the same and end in the same way.**
-/

namespace ConfigGraft.ChangeSet

/-- A setting **spares the journal** of a world if no name of an entry with a format leads to where
it is kept, neither now nor once more stands on the disk. -/
def Setting.SparesJournal (s : Setting) (entries : List FileEntry) (w : World) : Prop :=
  ∀ entry ∈ entries, ∀ format, formatOf entry = .ok format → ∀ v : World,
    v.journal.sink = w.journal.sink → w.disk.Grows v.disk → v.Spares (s.pathOf entry)

namespace Setting

variable {s : Setting} {entries : List FileEntry} {w v : World}

/-- A journal that is in no file is spared. -/
theorem sparesJournal_of_no_file (h : ∀ place, ¬ w.KeptAt place) (s : Setting)
    (entries : List FileEntry) : s.SparesJournal entries w := by
  intro entry _ format _ v hsink _ place _ hplace
  exact h place (hsink.symm.trans hplace)

/-- A journal that is spared stays so while the disk grows. -/
theorem SparesJournal.of_grows (h : s.SparesJournal entries w)
    (hsink : v.journal.sink = w.journal.sink) (hgrows : w.disk.Grows v.disk) :
    s.SparesJournal entries v :=
  fun entry hentry format hformat u hu hu' =>
    h entry hentry format hformat u (hu.trans hsink) (hgrows.trans hu')

/-- A journal that a list of entries spares is spared by any of them. -/
theorem SparesJournal.subset {others : List FileEntry} (h : s.SparesJournal entries w)
    (hsub : others ⊆ entries) : s.SparesJournal others w :=
  fun entry hentry => h entry (hsub hentry)

end Setting

/-- Progress that is **ahead** of other progress by some counts, in a twin of its world. -/
structure Progress.Ahead (before : Summary) (p q : Progress) : Prop where
  twins : p.world.Twins q.world
  processed : q.summary.processed = before.processed + p.summary.processed
  modified : q.summary.modified = before.modified + p.summary.modified

namespace Progress.Ahead

variable {before : Summary} {p q r : Progress}

/-- Progress with an open journal is ahead of itself by nothing. -/
theorem refl (h : p.world.Opened) : p.Ahead {} p :=
  ⟨.refl h, (Nat.zero_add _).symm, (Nat.zero_add _).symm⟩

/-- Progress that is ahead by nothing has counted the same. -/
theorem summary_eq (h : p.Ahead {} q) : q.summary = p.summary := by
  obtain ⟨processed, modified⟩ : q.summary.processed = p.summary.processed ∧
      q.summary.modified = p.summary.modified :=
    ⟨h.processed.trans (Nat.zero_add _), h.modified.trans (Nat.zero_add _)⟩
  cases hp : p.summary
  cases hq : q.summary
  simp_all

/-- Being ahead by nothing is passed on. -/
theorem trans (h : p.Ahead {} q) (h' : q.Ahead {} r) : p.Ahead {} r :=
  ⟨h.twins.trans h'.twins, by rw [h'.processed, h.summary_eq], by rw [h'.modified, h.summary_eq]⟩

/-- Records on both sides leave progress as far ahead as it was, whatever names are gathered. -/
theorem logged {v v' : World} {m m' : MissingNames} (h : p.Ahead before q)
    (hv : p.world.Logged v) (hv' : q.world.Logged v') :
    Ahead before ⟨v, m, p.summary⟩ ⟨v', m', q.summary⟩ :=
  ⟨h.twins.logged hv hv', h.processed, h.modified⟩

/-- A record on each side leaves progress as far ahead as it was. -/
theorem note (h : p.Ahead before q) (r r' : Log.Record) :
    (p.note r).Ahead before (q.note r') :=
  h.logged (.note r (.refl _)) (.note r' (.refl _))

/-- Attempts to write that do the same on both disks leave progress as far ahead as it was. -/
theorem withDisk {d e : Disk} (h : p.Ahead before q) (hgrows : p.world.disk.Grows d)
    (hagree : Disk.AgreeOff p.world.KeptAt d e) :
    (p.withDisk d).Ahead before (q.withDisk e) :=
  ⟨h.twins.withDisk hgrows hagree, h.processed, h.modified⟩

end Progress.Ahead

/-- Outcomes that agree, one ahead of the other. -/
def Ahead {α : Type} (before : Summary) (x y : Progress × α) : Prop :=
  y.2 = x.2 ∧ x.1.Ahead before y.1

/-! ### Steps -/

section

variable (s : Setting) {before : Summary} {p q : Progress}

/-- What comes of a file does not depend on what was recorded and counted before. -/
theorem applyFile_ahead {path : String} (format : Format) (changes : List Change)
    (h : p.Ahead before q) (hspares : p.world.Spares path) :
    Ahead before (applyFile s path format changes p) (applyFile s path format changes q) := by
  have hsame := Document.load_congr (h.twins.find_eq_ok hspares) format
  rcases hload : Document.load format p.world.disk path with fault | document
  · simp only [applyFile, hsame, hload]
    exact ⟨rfl, h⟩
  rw [applyFile_of_load hload, applyFile_of_load (hsame.trans hload)]
  rcases hset : document.setAll (s.updates changes) with crash | ⟨after, dirty⟩
  · obtain ⟨v, m, hv, hrun⟩ := applyChanges_of_setAll_error hset false p
    obtain ⟨v', m', hv', hrun'⟩ := applyChanges_of_setAll_error hset false q
    rw [hrun, hrun']
    exact ⟨rfl, h.logged hv hv'⟩
  obtain ⟨v, hv, hrun⟩ := applyChanges_of_setAll_ok hset false p
  obtain ⟨v', hv', hrun'⟩ := applyChanges_of_setAll_ok hset false q
  rw [hrun, hrun', Bool.false_or]
  have hchanged : Progress.Ahead before ⟨v, s.gather changes p.missing, p.summary⟩
      ⟨v', s.gather changes q.missing, q.summary⟩ := h.logged hv hv'
  cases dirty with
  | false => exact ⟨rfl, hchanged⟩
  | true =>
      obtain ⟨hfault, hagree⟩ := Document.store_agree hchanged.twins.agree path after
      have hgrows := Document.grows_store v.disk path after
      dsimp only at hfault hagree ⊢
      generalize Document.store v.disk path after = x at hfault hagree hgrows ⊢
      generalize Document.store v'.disk path after = y at hfault hagree ⊢
      obtain ⟨⟨d, fault?⟩, e, fault?'⟩ := x, y
      obtain rfl : fault?' = fault? := hfault
      have hstored := hchanged.withDisk hgrows hagree
      cases fault?' with
      | none => exact ⟨rfl, hstored.note _ _⟩
      | some fault => exact ⟨rfl, hstored⟩

/-- What comes of an entry does not depend on what was recorded and counted before. -/
theorem applyEntry_ahead {entry : FileEntry} (h : p.Ahead before q)
    (hspares : ∀ format, formatOf entry = .ok format → p.world.Spares (s.pathOf entry)) :
    Ahead before (applyEntry s entry p) (applyEntry s entry q) := by
  have htarget : target s q.world.disk entry = target s p.world.disk entry := by
    rw [target, target, h.twins.has_eq]
  rw [applyEntry, applyEntry, htarget]
  rcases hpath : target s p.world.disk entry with fault | path
  · exact ⟨rfl, h⟩
  obtain rfl := target_eq_ok hpath
  rcases hformat : formatOf entry with fault | format
  · exact ⟨rfl, h⟩
  dsimp only
  generalize processingRecord (s.pathOf entry) format entry.changes.length = r
  have hnoted : p.world.Logged (p.note r).world := .note r (.refl _)
  have hfile := applyFile_ahead s format entry.changes (h.note r r)
    (hnoted.spares_iff.2 (hspares format hformat))
  generalize applyFile s (s.pathOf entry) format entry.changes (p.note r) = x at hfile ⊢
  generalize applyFile s (s.pathOf entry) format entry.changes (q.note r) = y at hfile ⊢
  obtain ⟨⟨p', result⟩, q', other⟩ := x, y
  obtain ⟨rfl : other = result, hahead⟩ := hfile
  rcases other with halt | written
  · exact ⟨rfl, hahead⟩
  · refine ⟨rfl, hahead.twins, ?_, ?_⟩
    · exact (congrArg (· + 1) hahead.processed).trans (Nat.add_assoc ..)
    · exact (congrArg (· + if written then 1 else 0) hahead.modified).trans (Nat.add_assoc ..)

/-! ### Runs -/

/-- **Runs from twin worlds do the same to the files and end in the same way.** -/
theorem applyEntries_ahead {entries : List FileEntry} (h : p.Ahead before q)
    (hspares : s.SparesJournal entries p.world) :
    Ahead before (applyEntries s entries p) (applyEntries s entries q) := by
  induction entries generalizing p q with
  | nil => exact ⟨rfl, h⟩
  | cons entry rest ih =>
      have hentry := applyEntry_ahead s h fun format hformat =>
        hspares entry List.mem_cons_self format hformat p.world rfl (.refl _)
      have hstep := applyEntry_step s entry p
      rw [applyEntries, applyEntries]
      generalize applyEntry s entry p = x at hentry hstep ⊢
      generalize applyEntry s entry q = y at hentry ⊢
      obtain ⟨⟨p', halt?⟩, q', other⟩ := x, y
      obtain ⟨rfl : other = halt?, hahead⟩ := hentry
      cases other with
      | none =>
          exact ih hahead ((hspares.subset (List.subset_cons_self ..)).of_grows hstep.sink_eq
            hstep.grows)
      | some halt => exact ⟨rfl, hahead⟩

end

end ConfigGraft.ChangeSet
