import ConfigGraft.Proofs.ChangeSet.Ahead
import ConfigGraft.Proofs.ChangeSet.DryRun

/-!
# Runs one after the other

A run either completes, when it gets through all files, or it aborts at one of them. A run that
completes counts files and gathers missing names, and may then fail for the names; a run that aborts
leaves what the entries before made of the files.

Entries in front of others make the same difference as a run over them before: if they abort, the
others are never come to, and if they complete, the others start where they end.

## Main results

* `EntryStep.roomMade` — an entry that a run aborts at leaves the files as they were;
* `exists_aborting` — a run aborts at one entry, and completes on those before it;
* `apply_append` — **a failing run stops cleanly, and runs compose.**
-/

namespace ConfigGraft.ChangeSet

/-- A run **aborts** if it fails for something other than required variables. -/
structure Aborts (s : Setting) (entries : List FileEntry) (w : World) (halt : Halt) : Prop where
  result : (apply s entries w).2 = .error halt
  ne_missing : ∀ names, halt ≠ .fault (.missingRequired names)

/-- A run **completes** if it gets through all files. It has counted files and gathered missing
names by then, and fails if there are such names. -/
structure Completes (s : Setting) (entries : List FileEntry) (w : World) (summary : Summary)
    (missing : MissingNames) : Prop where
  through : ∃ p, applyEntries s entries { world := w } = (p, none) ∧ p.summary = summary ∧
    p.missing = missing
  result : (apply s entries w).2 =
    if missing.isEmpty then .ok summary else .error (.fault (.missingRequired missing))

variable {s : Setting} {entry : FileEntry} {entries A B : List FileEntry} {w : World}
  {p q : Progress} {halt : Halt}

/-! ### How a run ends -/

/-- A run ends in the fault at which an entry ends it. -/
theorem apply_of_halted (h : applyEntries s entries { world := w } = (p, some halt)) :
    apply s entries w = (p.world, .error halt) := by
  rw [apply, h]

/-- A run that gets through all entries is closed. -/
theorem apply_of_finished (h : applyEntries s entries { world := w } = (p, none)) :
    apply s entries w = conclude p := by
  rw [apply, h]

/-- A run that gets through all entries completes with what it has counted and gathered. -/
theorem completes_of_finished (h : applyEntries s entries { world := w } = (p, none)) :
    Completes s entries w p.summary p.missing :=
  ⟨⟨p, h, rfl, rfl⟩, by rw [apply_of_finished h, conclude_snd]⟩

/-- A run that an entry ends aborts. -/
theorem aborts_of_halted (h : applyEntries s entries { world := w } = (p, some halt)) :
    Aborts s entries w halt := by
  refine ⟨by rw [apply_of_halted h], ?_⟩
  rintro names rfl
  exact applyEntries_ne_missingRequired s entries { world := w } names (congrArg Prod.snd h)

/-- A run aborts exactly if it halts at an entry. -/
theorem aborts_iff :
    Aborts s entries w halt ↔ (applyEntries s entries { world := w }).2 = some halt := by
  rcases hrun : applyEntries s entries { world := w } with ⟨p, - | other⟩
  · refine ⟨fun h => ?_, nofun⟩
    have hresult := h.result
    rw [apply_of_finished hrun] at hresult
    exact absurd (eq_missingRequired_of_conclude hresult) (h.ne_missing _)
  · constructor
    · intro h
      have hresult := h.result
      rw [apply_of_halted hrun] at hresult
      exact congrArg some (Except.error.inj hresult)
    · intro h
      obtain rfl : other = halt := Option.some.inj h
      exact aborts_of_halted hrun

/-- Every run aborts or completes. -/
theorem aborts_or_completes (s : Setting) (entries : List FileEntry) (w : World) :
    (∃ halt, Aborts s entries w halt) ∨
      ∃ summary missing, Completes s entries w summary missing := by
  rcases hrun : applyEntries s entries { world := w } with ⟨p, - | halt⟩
  · exact .inr ⟨_, _, completes_of_finished hrun⟩
  · exact .inl ⟨halt, aborts_of_halted hrun⟩

/-! ### What lies between -/

/-- All that a run does after the last file is to make records. -/
theorem logged_of_finished (h : applyEntries s entries { world := w } = (p, none)) :
    p.world.Logged (apply s entries w).1 := by
  rw [apply_of_finished h]
  exact logged_conclude ..

/-- Behind the entries of a run come records only. -/
theorem logged_apply (s : Setting) (entries : List FileEntry) (w : World) :
    (applyEntries s entries { world := w }).1.world.Logged (apply s entries w).1 := by
  rcases hrun : applyEntries s entries { world := w } with ⟨p, - | halt⟩
  · exact logged_of_finished hrun
  · rw [apply_of_halted hrun]
    exact .refl p.world

/-- No run moves the journal. -/
theorem sink_apply (s : Setting) (entries : List FileEntry) (w : World) :
    (apply s entries w).1.journal.sink = w.journal.sink :=
  (logged_apply s entries w).sink_eq.trans (sink_applyEntries s entries { world := w })

/-- A run keeps a journal where it is, and open. -/
theorem opened_of_finished {halt? : Option Halt} (hopen : w.Opened)
    (h : applyEntries s entries { world := w } = (p, halt?)) :
    p.world.journal.sink = w.journal.sink ∧ p.world.Opened := by
  have hsink := sink_applyEntries s entries { world := w }
  have hgrows := grows_applyEntries s entries { world := w }
  rw [h] at hsink hgrows
  exact ⟨hsink, hopen.of_grows hsink hgrows⟩

/-- The missing names of a run that completes are those of its entries, where they are enforced. -/
theorem Completes.mem_missing {summary : Summary} {missing : MissingNames}
    (h : Completes s entries w summary missing) (name : String) :
    name ∈ missing ↔
      s.policy.stopOnMissingRequired = true ∧ Unresolved s.chain entries name := by
  obtain ⟨p, hrun, -, rfl⟩ := h.through
  rw [missing_of_applyEntries hrun]
  cases s.policy.stopOnMissingRequired with
  | true => simp [mem_gatherEntries]
  | false => simp

/-! ### The entry that a run aborts at -/

/-- **An entry that a run aborts at leaves the files as they were.** All that is new are directories
on the way of its name, apart from what is recorded. -/
theorem EntryStep.roomMade (h : EntryStep s entry p q (some halt)) (hopen : p.world.Opened) :
    Disk.RoomMade p.world.KeptAt (s.pathOf entry) p.world.disk q.world.disk := by
  cases h with
  | refused => exact (Disk.AgreeOff.refl _).roomMade
  | unsupported => exact (Disk.AgreeOff.refl _).roomMade
  | unread _ _ hlogged _ => exact (hlogged.agree hopen).roomMade
  | crashed hread _ hlogged => exact ((hread.logged.trans hlogged).agree hopen).roomMade
  | unwritten hread _ hlogged hstore =>
      exact ((hread.logged.trans hlogged).agree hopen).roomMade.trans
        (Document.roomMade_store hstore)

/-- A step keeps a journal open, and the disk a tree. -/
theorem EntryStep.opened_and_isTree {halt? : Option Halt} (h : EntryStep s entry p q halt?)
    (hp : p.world.Opened ∧ p.world.disk.IsTree) : q.world.Opened ∧ q.world.disk.IsTree := by
  obtain ⟨hopen, htree⟩ := hp
  refine ⟨hopen.of_grows h.sink_eq h.grows, ?_⟩
  have hlater {v : World} (hlogged : p.world.Logged v) : v.disk.IsTree :=
    (hlogged.sameShape hopen).isTree htree
  cases h with
  | refused => exact htree
  | unsupported => exact htree
  | unread _ _ hlogged _ => exact hlater hlogged
  | crashed hread _ hlogged => exact hlater (hread.logged.trans hlogged)
  | kept hread _ hlogged => exact hlater (hread.logged.trans hlogged)
  | unwritten hread _ hlogged hstore =>
      exact Document.isTree_store (hlater (hread.logged.trans hlogged)) hstore
  | @written _ _ v u _ _ disk hread _ hlogged hstore hreported =>
      have hv := hread.logged.trans hlogged
      have hopen' : World.Opened { v with disk } :=
        (hv.opened hopen).of_grows rfl (Document.grows_of_store hstore)
      exact (hreported.sameShape hopen').isTree (Document.isTree_store (hlater hv) hstore)

/-- A run keeps the disk a tree. -/
theorem isTree_applyEntries (entries : List FileEntry) (hopen : p.world.Opened)
    (htree : p.world.disk.IsTree) : (applyEntries s entries p).1.world.disk.IsTree :=
  (applyEntries_invariant (s := s) (fun q => q.world.Opened ∧ q.world.disk.IsTree)
    EntryStep.opened_and_isTree entries ⟨hopen, htree⟩).2

/-- **A run that halts has gone through some entries and halts at the next one.** -/
theorem exists_halting (h : applyEntries s entries p = (q, some halt)) :
    ∃ front entry back mid, entries = front ++ entry :: back ∧
      applyEntries s front p = (mid, none) ∧ applyEntry s entry mid = (q, some halt) := by
  induction entries generalizing p with
  | nil => cases h
  | cons entry rest ih =>
      rw [applyEntries] at h
      rcases happly : applyEntry s entry p with ⟨mid, - | other⟩
      · rw [happly] at h
        obtain ⟨front, failing, back, last, rfl, hfront, hfailing⟩ := ih h
        refine ⟨entry :: front, failing, back, last, rfl, ?_, hfailing⟩
        rw [applyEntries, happly]
        exact hfront
      · rw [happly] at h
        cases h
        exact ⟨[], entry, rest, p, rfl, rfl, happly⟩

/-- **A run aborts at one entry,** completes on those before it, and leaves the files as they were
before the entry. In a tree, the directories that are new hold no file. -/
theorem exists_aborting (hopen : w.Opened) (h : Aborts s entries w halt) :
    ∃ front entry back, entries = front ++ entry :: back ∧
      (∃ summary missing, Completes s front w summary missing) ∧
      Aborts s (front ++ [entry]) w halt ∧
      Disk.RoomMade w.KeptAt (s.pathOf entry) (apply s front w).1.disk
        (apply s entries w).1.disk ∧
      (w.disk.IsTree → ∀ place, (apply s front w).1.disk.node? place = none →
        ∀ rest content, (apply s entries w).1.disk.node? (place ++ rest) ≠
          some (.file content)) := by
  have hhalt := aborts_iff.1 h
  rcases hrun : applyEntries s entries { world := w } with ⟨q, other⟩
  obtain rfl : other = some halt := by rwa [hrun] at hhalt
  obtain ⟨front, entry, back, mid, hentries, hfront, hentry⟩ := exists_halting hrun
  have hstep := applyEntry_step s entry mid
  rw [hentry] at hstep
  obtain ⟨hsink, hopen'⟩ := opened_of_finished hopen hfront
  have hlogged := logged_of_finished hfront
  -- The records at the end of the shorter run are all that it is ahead of the entry.
  have hroom : Disk.RoomMade w.KeptAt (s.pathOf entry) (apply s front w).1.disk
      (apply s entries w).1.disk := by
    rw [apply_of_halted hrun, ← World.keptAt_eq hsink]
    exact (hlogged.agree hopen').symm.roomMade.trans (hstep.roomMade hopen')
  refine ⟨front, entry, back, hentries, ⟨_, _, completes_of_finished hfront⟩,
    aborts_of_halted (p := q) ?_, hroom, ?_⟩
  · simp only [applyEntries_append, hfront, applyEntries, hentry]
  · intro htree place hnone rest content
    have hmid : mid.world.disk.IsTree := by
      have hmid := isTree_applyEntries (s := s) front (p := { world := w }) hopen htree
      rwa [hfront] at hmid
    refine hroom.no_file_below ((hlogged.sameShape hopen').isTree hmid) ?_ hnone rest content
    intro other hother
    exact (hlogged.opened hopen') other ((sink_apply s front w).trans hother)

/-! ### Two runs -/

/-- Entries behind those that a run aborts at are never come to. -/
theorem apply_append_of_aborts (h : Aborts s A w halt) (B : List FileEntry) :
    apply s (A ++ B) w = apply s A w := by
  have hhalt := aborts_iff.1 h
  rcases hrun : applyEntries s A { world := w } with ⟨q, other⟩
  obtain rfl : other = some halt := by rwa [hrun] at hhalt
  have hwhole : applyEntries s (A ++ B) { world := w } = (q, some halt) := by
    rw [applyEntries_append, hrun]
  rw [apply_of_halted hrun, apply_of_halted hwhole]

/-- A run that completes has others go on where it ends: their run from there does the same to the
files as the run over all, and stays behind it by the counts of the first. -/
theorem apply_append_of_completes {before : Summary} {missing : MissingNames} (hopen : w.Opened)
    (hspares : s.SparesJournal (A ++ B) w) (h : Completes s A w before missing) :
    Disk.AgreeOff w.KeptAt (apply s B (apply s A w).1).1.disk (apply s (A ++ B) w).1.disk ∧
    (∀ halt, Aborts s (A ++ B) w halt ↔ Aborts s B (apply s A w).1 halt) ∧
    ∀ after more, Completes s B (apply s A w).1 after more →
      ∃ all, Completes s (A ++ B) w ⟨before.processed + after.processed,
          before.modified + after.modified⟩ all ∧
        ∀ name, name ∈ all ↔ name ∈ missing ∨ name ∈ more := by
  obtain ⟨p, hrun, rfl, rfl⟩ := h.through
  obtain ⟨-, hopen'⟩ := opened_of_finished hopen hrun
  have hlogged := logged_of_finished hrun
  have hwhole : applyEntries s (A ++ B) { world := w } = applyEntries s B p := by
    rw [applyEntries_append, hrun]
  have hahead : Progress.Ahead p.summary { world := (apply s A w).1 } p :=
    ⟨(hlogged.twins hopen').symm, rfl, rfl⟩
  obtain ⟨hend, hlast⟩ := applyEntries_ahead s hahead
    ((hspares.subset (List.subset_append_right A B)).of_grows (sink_apply s A w)
      (grows_apply s A w))
  refine ⟨?_, fun halt => ?_, fun after more hB => ?_⟩
  · have htwins := hlast.twins.logged (logged_apply s B (apply s A w).1)
      (hwhole ▸ logged_apply s (A ++ B) w)
    rw [← World.keptAt_eq ((sink_apply s B _).trans (sink_apply s A w))]
    exact htwins.agree
  · rw [aborts_iff, aborts_iff, hwhole, hend]
  · obtain ⟨q, hq, rfl, -⟩ := hB.through
    rcases hrun' : applyEntries s B p with ⟨last, other⟩
    rw [hrun', hq] at hend hlast
    obtain rfl : other = none := hend
    have hall := completes_of_finished (hwhole.trans hrun')
    refine ⟨last.missing, ?_, fun name => ?_⟩
    · rwa [← hlast.processed, ← hlast.modified]
    · rw [hall.mem_missing, h.mem_missing, hB.mem_missing, unresolved_append, and_or_left]

/-- **A failing run stops cleanly, and runs compose.** A run over some entries aborts or completes.
Where it aborts, it does so at one entry, and other entries behind make no difference; of what the
entry was about, nothing has changed but for directories on the way of its name. Where it completes,
a run over further entries does to the files what a run over these does afterwards. It aborts
exactly if that one does, in the same way, and otherwise has counted the files of both and gathered
the missing names of both. A journal that is kept in a file has to be open, and apart from the files
of the entries; where it is in none, the disks agree everywhere. -/
theorem apply_append (s : Setting) (A B : List FileEntry) (w : World) (hopen : w.Opened)
    (hspares : s.SparesJournal (A ++ B) w) :
    ((∃ halt, Aborts s A w halt) ∨ ∃ summary missing, Completes s A w summary missing) ∧
    (∀ halt, Aborts s A w halt →
      apply s (A ++ B) w = apply s A w ∧
      ∃ front entry back, A = front ++ entry :: back ∧
        (∃ summary missing, Completes s front w summary missing) ∧
        Aborts s (front ++ [entry]) w halt ∧
        Disk.RoomMade w.KeptAt (s.pathOf entry) (apply s front w).1.disk (apply s A w).1.disk ∧
        (w.disk.IsTree → ∀ place, (apply s front w).1.disk.node? place = none →
          ∀ rest content, (apply s A w).1.disk.node? (place ++ rest) ≠ some (.file content))) ∧
    ∀ before missing, Completes s A w before missing →
      Disk.AgreeOff w.KeptAt (apply s B (apply s A w).1).1.disk (apply s (A ++ B) w).1.disk ∧
      (∀ halt, Aborts s (A ++ B) w halt ↔ Aborts s B (apply s A w).1 halt) ∧
      ∀ after more, Completes s B (apply s A w).1 after more →
        ∃ all, Completes s (A ++ B) w ⟨before.processed + after.processed,
            before.modified + after.modified⟩ all ∧
          ∀ name, name ∈ all ↔ name ∈ missing ∨ name ∈ more :=
  ⟨aborts_or_completes s A w,
    fun _ h => ⟨apply_append_of_aborts h B, exists_aborting hopen h⟩,
    fun _ _ h => apply_append_of_completes hopen hspares h⟩

/-! ### An instance -/

/-- An entry for a file that is not on the sample's disk. -/
def absentEntry : FileEntry := ⟨"c.properties", []⟩

/-- The file of the entry is not there, and has to be. -/
theorem aborts_absentEntry :
    Aborts {} [absentEntry] sampleWorld (.fault (.fileNotFound "./c.properties")) := by
  have hpath : Setting.pathOf {} absentEntry = "./c.properties" := by
    simp [Setting.pathOf, absentEntry, FileName.join, String.startsWith_char_eq_head?,
      String.endsWith_char_eq_getLast?]
  have hthere : sampleWorld.disk.has "./c.properties" = false := by
    have hparts : FileName.parts "./c.properties" = [".", "c.properties"] := by decide
    have hstart : sampleWorld.disk.start "./c.properties" = [] := by
      simp [Disk.start, String.startsWith_char_eq_head?, sampleWorld]
    have hshort : ¬ 255 < "c.properties".utf8ByteSize := by decide
    rw [← Bool.not_eq_true, Disk.has_iff]
    rintro ⟨place, hplace, hsome⟩
    obtain ⟨-, -, -, hwalk⟩ := Disk.locate_eq_ok.1 hplace
    rw [hparts, hstart] at hwalk
    simp [Disk.walk, Disk.step, Disk.node?, hshort] at hwalk
    simp [← hwalk, Disk.node?, sampleWorld] at hsome
  refine aborts_iff.2 ?_
  simp [applyEntries, applyEntry, target, hpath, hthere]

/-- Behind an entry that a run aborts at, the sample's entry is not come to. Before it, it is dealt
with as in a run of its own. -/
theorem apply_append_absentEntry :
    sampleWorld.Opened ∧ (∀ entries, Setting.SparesJournal {} entries sampleWorld) ∧
    Aborts {} [absentEntry] sampleWorld (.fault (.fileNotFound "./c.properties")) ∧
    apply {} ([absentEntry] ++ [sampleEntry]) sampleWorld = apply {} [absentEntry] sampleWorld ∧
    (∃ summary missing, Completes {} [sampleEntry] sampleWorld summary missing) ∧
    Disk.AgreeOff sampleWorld.KeptAt
      (apply {} [absentEntry] (apply {} [sampleEntry] sampleWorld).1).1.disk
      (apply {} ([sampleEntry] ++ [absentEntry]) sampleWorld).1.disk ∧
    ∀ halt, Aborts {} ([sampleEntry] ++ [absentEntry]) sampleWorld halt ↔
      Aborts {} [absentEntry] (apply {} [sampleEntry] sampleWorld).1 halt := by
  have hoff (place : Location) : ¬ sampleWorld.KeptAt place := fun h => by cases h
  have hopen : sampleWorld.Opened := fun place h => absurd h (hoff place)
  have hspares (entries : List FileEntry) : Setting.SparesJournal {} entries sampleWorld :=
    Setting.sparesJournal_of_no_file hoff {} entries
  obtain ⟨q, hrun⟩ := applyEntries_sampleEntry
  have hsample := completes_of_finished hrun
  obtain ⟨-, haborting, -⟩ :=
    apply_append {} [absentEntry] [sampleEntry] sampleWorld hopen (hspares _)
  obtain ⟨-, -, hcompleting⟩ :=
    apply_append {} [sampleEntry] [absentEntry] sampleWorld hopen (hspares _)
  obtain ⟨hdisks, haborts, -⟩ := hcompleting _ _ hsample
  exact ⟨hopen, hspares, aborts_absentEntry, (haborting _ aborts_absentEntry).1, ⟨_, _, hsample⟩,
    hdisks, haborts⟩

end ConfigGraft.ChangeSet
