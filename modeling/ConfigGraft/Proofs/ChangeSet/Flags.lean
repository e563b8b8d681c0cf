import ConfigGraft.Proofs.ChangeSet.Faults

/-!
# What the stop flags decide

A policy has two stop flags: one makes a run fail for required variables without a value, the other
says which failures stop the caller. Neither has a say in what is written. Two runs that differ in
the flags only go through the same worlds up to the very end, where the enforcing one may have one
more record to write.

## Main results

* `applyEntries_withFlags` — runs under other flags agree in everything but the gathered names;
* `missing_of_applyEntries` — what a run through all files has gathered;
* `apply_withFlags` — **the flags decide what is reported, never what is written.**
-/

namespace ConfigGraft.ChangeSet

/-- The setting with other stop flags. -/
def Setting.withFlags (s : Setting) (onMissing onError : Bool) : Setting :=
  { s with policy :=
      { s.policy with stopOnMissingRequired := onMissing, stopOnError := onError } }

/-- Progress that agrees in everything but the gathered names. -/
structure Progress.Alike (p q : Progress) : Prop where
  world : q.world = p.world
  summary : q.summary = p.summary

/-- Outcomes that agree in everything but the gathered names. -/
def Alike {α : Type} (x y : Progress × α) : Prop := x.1.Alike y.1 ∧ y.2 = x.2

/-- A record on both sides leaves two runs alike. -/
theorem Progress.Alike.note {p q : Progress} (h : p.Alike q) (r : Log.Record) :
    (p.note r).Alike (q.note r) :=
  ⟨congrArg (World.note r) h.world, h.summary⟩

/-- The same disk on both sides leaves two runs alike. -/
theorem Progress.Alike.withDisk {p q : Progress} (h : p.Alike q) (disk : Disk) :
    (p.withDisk disk).Alike (q.withDisk disk) :=
  ⟨congrArg (fun w : World => { w with disk }) h.world, h.summary⟩

/-! ### Two runs -/

section

variable (s : Setting) (onMissing onError : Bool)

/-- Changes to a document do the same under other flags, but for the names that they gather. -/
theorem applyChanges_withFlags (path : String) (changes : List Change) (document : Document)
    (dirty : Bool) {p q : Progress} (h : p.Alike q) :
    Alike (applyChanges s path changes document dirty p)
      (applyChanges (s.withFlags onMissing onError) path changes document dirty q) := by
  induction changes generalizing document dirty p q with
  | nil => exact ⟨h, rfl⟩
  | cons change rest ih =>
      rw [applyChanges_cons, applyChanges_cons, show (s.withFlags onMissing onError).chain = s.chain
        from rfl]
      rcases document.set change.path (Template.text s.chain change.value) with
        crash | ⟨next, changed⟩
      · exact ⟨⟨h.world, h.summary⟩, rfl⟩
      · exact ih _ _ ⟨congrArg (World.note _) h.world, h.summary⟩

/-- Changes to a file do the same under other flags, but for the names that they gather. -/
theorem applyFile_withFlags (path : String) (format : Format) (changes : List Change)
    {p q : Progress} (h : p.Alike q) :
    Alike (applyFile s path format changes p)
      (applyFile (s.withFlags onMissing onError) path format changes q) := by
  rcases hload : Document.load format p.world.disk path with fault | document
  · simp only [applyFile, h.world, hload]
    exact ⟨h, rfl⟩
  rw [applyFile_of_load hload, applyFile_of_load (h.world ▸ hload)]
  have hchanges := applyChanges_withFlags s onMissing onError path changes document false h
  generalize applyChanges s path changes document false p = x at hchanges ⊢
  generalize applyChanges (s.withFlags onMissing onError) path changes document false q = y
    at hchanges ⊢
  obtain ⟨⟨p', result⟩, q', other⟩ := x, y
  obtain ⟨halike, rfl : other = result⟩ := hchanges
  rcases other with halt | ⟨after, - | -⟩
  · exact ⟨halike, rfl⟩
  · exact ⟨halike, rfl⟩
  · simp only [show q'.world = p'.world from halike.world]
    rcases Document.store p'.world.disk path after with ⟨disk, - | fault⟩
    · exact ⟨(halike.withDisk disk).note _, rfl⟩
    · exact ⟨halike.withDisk disk, rfl⟩

/-- An entry does the same under other flags, but for the names that it gathers. -/
theorem applyEntry_withFlags (entry : FileEntry) {p q : Progress} (h : p.Alike q) :
    Alike (applyEntry s entry p) (applyEntry (s.withFlags onMissing onError) entry q) := by
  unfold applyEntry
  rw [h.world, show target (s.withFlags onMissing onError) = target s from rfl]
  rcases target s p.world.disk entry with fault | path
  · exact ⟨h, rfl⟩
  rcases formatOf entry with fault | format
  · exact ⟨h, rfl⟩
  have hfile := applyFile_withFlags s onMissing onError path format entry.changes
    (h.note (processingRecord path format entry.changes.length))
  simp only
  generalize applyFile s path format entry.changes _ = x at hfile ⊢
  generalize applyFile (s.withFlags onMissing onError) path format entry.changes _ = y at hfile ⊢
  obtain ⟨⟨p', result⟩, q', other⟩ := x, y
  obtain ⟨halike, rfl : other = result⟩ := hfile
  rcases other with halt | written
  · exact ⟨halike, rfl⟩
  · have hsummary : q'.summary = p'.summary := halike.summary
    refine ⟨⟨halike.world, ?_⟩, rfl⟩
    simp only [hsummary]

/-- **Runs under other flags agree in everything but the gathered names.** -/
theorem applyEntries_withFlags (entries : List FileEntry) {p q : Progress} (h : p.Alike q) :
    Alike (applyEntries s entries p)
      (applyEntries (s.withFlags onMissing onError) entries q) := by
  induction entries generalizing p q with
  | nil => exact ⟨h, rfl⟩
  | cons entry rest ih =>
      have hentry := applyEntry_withFlags s onMissing onError entry h
      rw [applyEntries, applyEntries]
      generalize applyEntry s entry p = x at hentry ⊢
      generalize applyEntry (s.withFlags onMissing onError) entry q = y at hentry ⊢
      obtain ⟨⟨p', halt⟩, q', other⟩ := x, y
      obtain ⟨halike, rfl : other = halt⟩ := hentry
      rcases other with - | halt
      · exact ih halike
      · exact ⟨halike, rfl⟩

end

/-! ### What was gathered -/

/-- An entry that gets through has gathered the names of its changes. -/
theorem EntryStep.missing_eq {s : Setting} {entry : FileEntry} {p q : Progress}
    (h : EntryStep s entry p q none) : q.missing = s.gather entry.changes p.missing := by
  cases h with
  | kept => rfl
  | written => rfl

/-- **What a run through all files has gathered:** the missing names of all of them, if the policy
is to enforce required variables. -/
theorem missing_of_applyEntries {s : Setting} {entries : List FileEntry} {p q : Progress}
    (h : applyEntries s entries p = (q, none)) :
    q.missing = if s.policy.stopOnMissingRequired then gatherEntries s.chain entries p.missing
      else p.missing := by
  induction entries generalizing p with
  | nil =>
      cases h
      simp [gatherEntries]
  | cons entry rest ih =>
      obtain ⟨mid, -, hstep, hrest⟩ := applyEntries_cons_finished h
      rw [ih hrest, hstep.missing_eq, Setting.gather]
      split <;> rfl

/-! ### Whole runs -/

/-- Closing a run does no more than report. -/
theorem logged_conclude (v : World) (missing : MissingNames) (summary : Summary) :
    v.Logged (conclude ⟨v, missing, summary⟩).1 := by
  rw [conclude]
  simp only
  split
  · exact .note _ (.refl _)
  · exact .note _ (.note _ (.refl _))

/-- How a run ends in which no file failed: well, if no name was gathered. -/
theorem conclude_snd (p : Progress) :
    (conclude p).2 = if p.missing.isEmpty then .ok p.summary
      else .error (.fault (.missingRequired p.missing)) := by
  rw [conclude]
  cases hempty : p.missing.isEmpty <;> simp [Progress.note, hempty]

/-- Closing a run fails for the names that were gathered, and for nothing else. -/
theorem eq_missingRequired_of_conclude {p : Progress} {halt : Halt}
    (h : (conclude p).2 = .error halt) : halt = .fault (.missingRequired p.missing) := by
  rw [conclude_snd] at h
  split at h
  · cases h
  · exact (Except.error.inj h).symm

variable (s : Setting) {entries : List FileEntry} {w : World} {p : Progress}

/-- If a file fails, all flags let the run end there. -/
theorem apply_withFlags_of_halted (onMissing onError : Bool) {halt : Halt}
    (h : applyEntries s entries { world := w } = (p, some halt)) :
    apply (s.withFlags onMissing onError) entries w = (p.world, .error halt) := by
  have hrun := applyEntries_withFlags s onMissing onError entries (p := { world := w }) ⟨rfl, rfl⟩
  rw [apply]
  rw [h] at hrun
  generalize applyEntries (s.withFlags onMissing onError) entries { world := w } = y at hrun ⊢
  obtain ⟨q, other⟩ := y
  obtain ⟨halike, rfl : other = some halt⟩ := hrun
  have hworld : q.world = p.world := halike.world
  simp only [hworld]

/-- If no file fails, all flags let the run come to the same end, and then decide. -/
theorem apply_withFlags_of_finished (onMissing onError : Bool)
    (h : applyEntries s entries { world := w } = (p, none)) :
    apply (s.withFlags onMissing onError) entries w = conclude
      ⟨p.world, if onMissing then gatherEntries s.chain entries .none else .none, p.summary⟩ := by
  have hrun := applyEntries_withFlags s onMissing onError entries (p := { world := w }) ⟨rfl, rfl⟩
  rw [h] at hrun
  rw [apply]
  rcases hother : applyEntries (s.withFlags onMissing onError) entries { world := w } with
    ⟨⟨world, missing, summary⟩, other⟩
  rw [hother] at hrun
  obtain ⟨⟨rfl : world = p.world, rfl : summary = p.summary⟩, rfl : other = none⟩ := hrun
  rw [show missing = _ from missing_of_applyEntries hother]
  rfl

variable (entries w)

/-- Whatever the flags, all that a run does after its last write is to make records. -/
theorem logged_apply_withFlags :
    ∃ v : World, v.journal.sink = w.journal.sink ∧
      ∀ onMissing onError, v.Logged (apply (s.withFlags onMissing onError) entries w).1 := by
  have hsink := sink_applyEntries s entries { world := w }
  rcases hrun : applyEntries s entries { world := w } with ⟨p, - | halt⟩
  · rw [hrun] at hsink
    refine ⟨p.world, hsink, fun onMissing onError => ?_⟩
    rw [apply_withFlags_of_finished s onMissing onError hrun]
    exact logged_conclude ..
  · rw [hrun] at hsink
    refine ⟨p.world, hsink, fun onMissing onError => ?_⟩
    rw [apply_withFlags_of_halted s onMissing onError hrun]
    exact .refl p.world

/-- Without enforcement a run never fails for a required variable. -/
theorem apply_lax_ne_missingRequired (onError : Bool) (names : MissingNames) :
    (apply (s.withFlags false onError) entries w).2 ≠
      .error (.fault (.missingRequired names)) := by
  have hnames := applyEntries_ne_missingRequired s entries { world := w } names
  rcases hrun : applyEntries s entries { world := w } with ⟨p, - | halt⟩
  · rw [apply_withFlags_of_finished s false onError hrun, conclude_snd]
    intro h
    cases h
  · rw [apply_withFlags_of_halted s false onError hrun]
    intro h
    cases h
    rw [hrun] at hnames
    exact hnames rfl

variable {s entries w}

/-- Where a run succeeds without enforcement, an enforcing run succeeds too, or fails for exactly
the names that have no value. -/
theorem apply_strict_of_lax {onError onError' : Bool} {summary : Summary}
    (h : (apply (s.withFlags false onError) entries w).2 = .ok summary) :
    ((apply (s.withFlags true onError') entries w).2 = .ok summary ∧
      ∀ name, ¬ Unresolved s.chain entries name) ∨
    ∃ names, (apply (s.withFlags true onError') entries w).2 =
        .error (.fault (.missingRequired names)) ∧
      (∃ name, name ∈ names) ∧ ∀ name, name ∈ names ↔ Unresolved s.chain entries name := by
  rcases hrun : applyEntries s entries { world := w } with ⟨p, - | halt⟩
  · have hgathered (name : String) := mem_gatherEntries s.chain name entries .none
    simp only [MissingNames.not_mem_none, false_or] at hgathered
    rw [apply_withFlags_of_finished s _ _ hrun, conclude_snd] at h ⊢
    obtain rfl : p.summary = summary := Except.ok.inj h
    cases hempty : (gatherEntries s.chain entries .none).isEmpty with
    | true =>
        refine .inl ⟨by simp [hempty], fun name hname => ?_⟩
        rw [MissingNames.isEmpty_eq_true_iff.1 hempty] at hgathered
        exact MissingNames.not_mem_none name ((hgathered name).2 hname)
    | false =>
        exact .inr ⟨_, by simp [hempty], MissingNames.isEmpty_eq_false_iff.1 hempty, hgathered⟩
  · rw [apply_withFlags_of_halted s _ _ hrun] at h
    cases h

/-- A halt that is not for required variables comes under all flags. -/
theorem apply_withFlags_eq_error {onMissing onError onMissing' onError' : Bool} {halt : Halt}
    (hhalt : ∀ names, halt ≠ .fault (.missingRequired names))
    (h : (apply (s.withFlags onMissing onError) entries w).2 = .error halt) :
    (apply (s.withFlags onMissing' onError') entries w).2 = .error halt := by
  rcases hrun : applyEntries s entries { world := w } with ⟨p, - | other⟩
  · rw [apply_withFlags_of_finished s _ _ hrun] at h
    exact absurd (eq_missingRequired_of_conclude h) (hhalt _)
  · rw [apply_withFlags_of_halted s _ _ hrun] at h ⊢
    exact h

/-- **The flags decide what is reported, never what is written.** Whatever the flags, a run leaves
the same disk, up to the file of a journal that is kept in one. Without enforcement it never fails
for a required variable; where it then succeeds, an enforcing run succeeds with the same summary, or
fails for exactly the names that have no value. All other halts are the same. -/
theorem apply_withFlags (s : Setting) (entries : List FileEntry) (w : World)
    (onMissing onMissing' onError onError' : Bool) :
    (∀ place, w.journal.sink ≠ .file place →
      (apply (s.withFlags onMissing onError) entries w).1.disk.node? place =
        (apply (s.withFlags onMissing' onError') entries w).1.disk.node? place) ∧
    ((∀ place, w.journal.sink ≠ .file place) →
      (apply (s.withFlags onMissing onError) entries w).1.disk =
        (apply (s.withFlags onMissing' onError') entries w).1.disk) ∧
    (∀ names, (apply (s.withFlags false onError) entries w).2 ≠
      .error (.fault (.missingRequired names))) ∧
    (∀ summary, (apply (s.withFlags false onError) entries w).2 = .ok summary →
      ((apply (s.withFlags true onError') entries w).2 = .ok summary ∧
        ∀ name, ¬ Unresolved s.chain entries name) ∨
      ∃ names, (apply (s.withFlags true onError') entries w).2 =
          .error (.fault (.missingRequired names)) ∧
        (∃ name, name ∈ names) ∧ ∀ name, name ∈ names ↔ Unresolved s.chain entries name) ∧
    (∀ halt, (∀ names, halt ≠ .fault (.missingRequired names)) →
      ((apply (s.withFlags onMissing onError) entries w).2 = .error halt ↔
        (apply (s.withFlags onMissing' onError') entries w).2 = .error halt)) := by
  obtain ⟨v, hsink, hlogged⟩ := logged_apply_withFlags s entries w
  refine ⟨fun place hplace => ?_, fun hoff => ?_, apply_lax_ne_missingRequired s entries w onError,
    fun summary hok => apply_strict_of_lax hok, fun halt hhalt =>
      ⟨apply_withFlags_eq_error hhalt, apply_withFlags_eq_error hhalt⟩⟩
  · rw [← hsink] at hplace
    rw [(hlogged ..).node?_eq hplace, (hlogged ..).node?_eq hplace]
  · rw [← hsink] at hoff
    rw [(hlogged ..).disk_eq hoff, (hlogged ..).disk_eq hoff]

end ConfigGraft.ChangeSet
