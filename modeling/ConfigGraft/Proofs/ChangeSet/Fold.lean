import ConfigGraft.Proofs.ChangeSet.Flags
import ConfigGraft.Proofs.ChangeSet.Foreseen
import ConfigGraft.Proofs.Document.Content
import ConfigGraft.Proofs.Document.Unchanged
import ConfigGraft.Proofs.Format

/-!
# What a run makes of a file

Several entries of a change set can be about one file, under one name or under several. A run loads
the file for each of them anew, and writes it only for those that make a difference. This comes to
the same as setting all updates for the file in the document that it held at first. The argument
looks at one place of the disk: a step at the place sets its updates in the document there, and any
other step leaves the place alone.

## Main results

* `EntryStep.holds`, `EntryStep.node?_eq` — a step at a place, and a step elsewhere;
* `applyEntries_holds` — what a run makes of the document at a place;
* `load_apply` — **no update is lost:** a file is loaded after the run as the document before it
  with all updates for the file set in it.
-/

namespace ConfigGraft.ChangeSet

/-- Whether a name leads to a place. -/
def leadsTo (disk : Disk) (place : Location) (name : String) : Bool :=
  match disk.locate name with
  | .ok other => other == place
  | .error _ => false

/-- The changes of all entries whose file is at a place, in order. -/
def changesAt (s : Setting) (disk : Disk) (place : Location) (entries : List FileEntry) :
    List Change :=
  (entries.filter fun entry => leadsTo disk place (s.pathOf entry)).flatMap (·.changes)

/-- The documents that a run **stores:** those that come of a document that was loaded for an entry
once its updates have made a difference. -/
inductive Stores (s : Setting) : List FileEntry → Progress → Document → Prop
  | here {entry : FileEntry} {rest : List FileEntry} {p : Progress} {format : Format}
      {before after : Document} :
      formatOf entry = .ok format →
      Document.load format p.world.disk (s.pathOf entry) = .ok before →
      before.setAll (s.updates entry.changes) = .ok (after, true) →
      Stores s (entry :: rest) p after
  | later {entry : FileEntry} {rest : List FileEntry} {p q : Progress} {document : Document} :
      applyEntry s entry p = (q, none) → Stores s rest q document →
      Stores s (entry :: rest) p document

/-- A world in which the files of a run are where they were on a disk, and in which the journal is
not at a place. -/
structure Apart (s : Setting) (disk : Disk) (place : Location) (w : World) : Prop where
  require : s.policy.requireExistingFiles = true
  foreseen : Foreseen s disk w
  sink_ne : w.journal.sink ≠ .file place

variable {s : Setting} {disk : Disk} {place : Location} {format : Format}

/-- A name leads to a place if it is located there. -/
theorem leadsTo_iff {name : String} :
    leadsTo disk place name = true ↔ disk.locate name = .ok place := by
  rw [leadsTo]
  cases disk.locate name <;> simp

/-- An entry that leads to the place adds its changes in front. -/
theorem changesAt_cons_of_eq {entry : FileEntry} {rest : List FileEntry}
    (h : disk.locate (s.pathOf entry) = .ok place) :
    changesAt s disk place (entry :: rest) = entry.changes ++ changesAt s disk place rest := by
  simp [changesAt, leadsTo_iff.2 h]

/-- An entry that leads elsewhere, or nowhere, adds none. -/
theorem changesAt_cons_of_ne {entry : FileEntry} {rest : List FileEntry}
    (h : disk.locate (s.pathOf entry) ≠ .ok place) :
    changesAt s disk place (entry :: rest) = changesAt s disk place rest := by
  simp [changesAt, mt leadsTo_iff.1 h]

/-! ### Steps -/

namespace Apart

variable {w v : World} {entry : FileEntry} {p q : Progress}

/-- Records elsewhere do not touch the place. -/
theorem logged (h : Apart s disk place w) (hlogged : w.Logged v) : Apart s disk place v :=
  ⟨h.require, h.foreseen.logged hlogged, hlogged.sink_eq ▸ h.sink_ne⟩

/-- An entry leaves the place apart from the journal, and all names leading where they led. -/
theorem step {halt? : Option Halt} (h : Apart s disk place p.world)
    (hstep : EntryStep s entry p q halt?) : Apart s disk place q.world :=
  ⟨h.require, hstep.foreseen h.foreseen, hstep.sink_eq ▸ h.sink_ne⟩

/-- So do all entries of a run. -/
theorem applyEntries (h : Apart s disk place p.world) (entries : List FileEntry) :
    Apart s disk place (applyEntries s entries p).1.world :=
  ⟨h.require, h.foreseen.applyEntries entries, sink_applyEntries s entries p ▸ h.sink_ne⟩

/-- Names lead where they led at the start. -/
theorem locate_eq (h : Apart s disk place w) (name : String) :
    w.disk.locate name = disk.locate name :=
  (h.foreseen h.require).1.locate_eq name

/-- Where files have to be there, the file of an accepted entry is there. -/
theorem has_of_target {path : String} (h : Apart s disk place w)
    (htarget : target s disk entry = .ok path) : w.disk.has (s.pathOf entry) = true := by
  rw [(h.foreseen h.require).1.has_eq]
  exact ChangeSet.has_of_target h.require htarget

end Apart

variable {entry : FileEntry} {p q : Progress}

/-- An entry that was read was accepted on the disk of the start too. -/
theorem EntryRead.target_eq_start {w : World} {document : Document}
    (h : EntryRead s entry p format w document) (hapart : Apart s disk place p.world) :
    target s disk entry = .ok (s.pathOf entry) :=
  hapart.foreseen.target_eq entry ▸ h.target_eq

/-- An entry that does not halt the run has been read. -/
theorem EntryStep.exists_read (hstep : EntryStep s entry p q none) :
    ∃ format w document, EntryRead s entry p format w document := by
  cases hstep with
  | kept hread => exact ⟨_, _, _, hread⟩
  | written hread => exact ⟨_, _, _, hread⟩

/-- A step at another place leaves the place alone. -/
theorem EntryStep.node?_eq (hstep : EntryStep s entry p q none)
    (hapart : Apart s disk place p.world) (helse : disk.locate (s.pathOf entry) ≠ .ok place) :
    q.world.disk.node? place = p.world.disk.node? place := by
  cases hstep with
  | kept hread _ hlogged => exact (hread.logged.trans hlogged).node?_eq hapart.sink_ne
  | @written _ _ v u _ _ _ hread _ hlogged hstore hreported =>
      have hv : p.world.Logged v := hread.logged.trans hlogged
      obtain ⟨text, other, content, -, hfind, rfl⟩ := Document.store_eq_none
        ((hapart.logged hv).has_of_target (hread.target_eq_start hapart)) hstore
      obtain ⟨hother, hfile⟩ := Disk.find_eq_ok.1 hfind
      have hne : place ≠ other := by
        rintro rfl
        exact helse ((hapart.logged hv).locate_eq _ ▸ hother)
      have hsink : v.journal.sink ≠ .file place := (hapart.logged hv).sink_ne
      calc u.disk.node? place
          = (v.disk.put other (.file text.toUTF8)).node? place := hreported.node?_eq hsink
        _ = v.disk.node? place := by rw [Disk.node?_put (Disk.ne_nil_of_file hfile), if_neg hne]
        _ = p.world.disk.node? place := hv.node?_eq hapart.sink_ne

/-- **A step at a place sets its updates in the document there.** -/
theorem EntryStep.holds {before : Document} (hstep : EntryStep s entry p q none)
    (hapart : Apart s disk place p.world) (hplace : disk.locate (s.pathOf entry) = .ok place)
    (hformat : formatOf entry = .ok format) (huntagged : before.Untagged)
    (hback : ∀ after, before.setAll (s.updates entry.changes) = .ok (after, true) →
      after.ReadsBack)
    (hholds : p.world.disk.Holds format place before) :
    ∃ after dirty, before.setAll (s.updates entry.changes) = .ok (after, dirty) ∧
      q.world.disk.Holds format place after := by
  -- What the step has read is the document at the place, whatever was recorded before.
  have hloaded {format' : Format} {w : World} {document : Document}
      (hread : EntryRead s entry p format' w document) : format' = format ∧ document = before := by
    obtain rfl : format' = format := Except.ok.inj (hread.formatOf_eq.symm.trans hformat)
    have hw := hapart.logged hread.logged
    have hthere := hw.has_of_target (hread.target_eq_start hapart)
    have hload := (Document.load_eq_ok hthere ((hw.locate_eq _).trans hplace)).2
      (hholds.of_node?_eq (hread.logged.node?_eq hapart.sink_ne))
    exact ⟨rfl, Except.ok.inj (hread.load_eq.symm.trans hload)⟩
  cases hstep with
  | kept hread hset hlogged =>
      obtain ⟨rfl, rfl⟩ := hloaded hread
      refine ⟨_, false, hset, ?_⟩
      rw [Document.setAll_unchanged huntagged hset]
      exact hholds.of_node?_eq ((hread.logged.trans hlogged).node?_eq hapart.sink_ne)
  | @written _ _ v u _ after _ hread hset hlogged hstore hreported =>
      obtain ⟨rfl, rfl⟩ := hloaded hread
      have hv := hapart.logged (hread.logged.trans hlogged)
      obtain ⟨text, other, content, htext, hfind, rfl⟩ := Document.store_eq_none
        (hv.has_of_target (hread.target_eq_start hapart)) hstore
      obtain ⟨hother, hfile⟩ := Disk.find_eq_ok.1 hfind
      obtain rfl : other = place :=
        Except.ok.inj (hother.symm.trans ((hv.locate_eq _).trans hplace))
      obtain ⟨_, _, hbytes⟩ := hholds
      have hkept := (Document.format_setAll hset).trans (Document.format_ofBytes? hbytes)
      refine ⟨after, true, hset, text.toUTF8, ?_, ?_⟩
      · exact (hreported.node?_eq hv.sink_ne).trans
          (by rw [Disk.node?_put (Disk.ne_nil_of_file hfile), if_pos rfl])
      · exact hkept ▸ Document.ofBytes?_toUTF8 (hback after hset) htext

/-! ### Runs -/

/-- The format of an entry is that of its path, since joining leaves the last part of a name alone.
-/
theorem ofFile?_of_formatOf {entry : FileEntry} (h : formatOf entry = .ok format) :
    Format.ofFile? (s.pathOf entry) = some format := by
  rw [Setting.pathOf, Format.ofFile?_join]
  rw [formatOf] at h
  split at h
  · rename_i hfile
    rw [hfile, Except.ok.inj h]
  · cases h

/-- Entries for the same place have the same format. -/
theorem format_eq_of_locate_eq {entry other : FileEntry} {format' : Format}
    (hplace : disk.locate (s.pathOf entry) = .ok place)
    (hother : disk.locate (s.pathOf other) = .ok place) (h : formatOf entry = .ok format)
    (h' : formatOf other = .ok format') : format' = format := by
  have hentry := Disk.ofFile?_of_locate (ofFile?_of_formatOf h) hplace
  rw [Disk.ofFile?_of_locate (ofFile?_of_formatOf h') hother] at hentry
  exact Option.some.inj hentry

/-- The updates of two lists of changes come one behind the other. -/
theorem updates_append (s : Setting) (front back : List Change) :
    s.updates (front ++ back) = s.updates front ++ s.updates back := List.map_append

/-- What a run makes of the document at a place: all updates for the place are set in it. -/
theorem applyEntries_holds {entries : List FileEntry} {before : Document}
    (hapart : Apart s disk place p.world)
    (hformat : ∀ entry ∈ entries, disk.locate (s.pathOf entry) = .ok place →
      formatOf entry = .ok format)
    (hback : ∀ document, Stores s entries p document → document.ReadsBack)
    (huntagged : before.Untagged) (hholds : p.world.disk.Holds format place before)
    (hrun : applyEntries s entries p = (q, none)) :
    ∃ after dirty, before.setAll (s.updates (changesAt s disk place entries)) = .ok (after, dirty) ∧
      q.world.disk.Holds format place after := by
  induction entries generalizing p before with
  | nil =>
      cases hrun
      exact ⟨before, false, rfl, hholds⟩
  | cons entry rest ih =>
      obtain ⟨hentry, hrest⟩ := List.forall_mem_cons.1 hformat
      obtain ⟨p', happly, hstep, hlast⟩ := applyEntries_cons_finished hrun
      have hlater (document : Document) (hstores : Stores s rest p' document) :
          document.ReadsBack := hback document (.later happly hstores)
      by_cases hplace : disk.locate (s.pathOf entry) = .ok place
      · obtain ⟨_, _, _, hread⟩ := hstep.exists_read
        have hload := (Document.load_eq_ok (hapart.has_of_target (hread.target_eq_start hapart))
          ((hapart.locate_eq _).trans hplace)).2 hholds
        obtain ⟨mid, first, hset, hmid⟩ := hstep.holds hapart hplace (hentry hplace) huntagged
          (fun after hset => hback after (.here (hentry hplace) hload hset)) hholds
        obtain ⟨after, more, hsets, hafter⟩ := ih (hapart.step hstep) hrest hlater
          (Document.untagged_setAll huntagged hset) hmid hlast
        refine ⟨after, first || more, ?_, hafter⟩
        rw [changesAt_cons_of_eq hplace, updates_append]
        exact Document.setAll_append hset hsets
      · rw [changesAt_cons_of_ne hplace]
        exact ih (hapart.step hstep) hrest hlater huntagged
          (hholds.of_node?_eq (hstep.node?_eq hapart hplace)) hlast

/-- Entries that a run gets through are found and have a format. -/
theorem found_of_applyEntries {entries : List FileEntry} (hforeseen : Foreseen s disk p.world)
    (hrun : applyEntries s entries p = (q, none)) :
    ∀ entry ∈ entries, target s disk entry = .ok (s.pathOf entry) ∧
      ∃ format, formatOf entry = .ok format := by
  induction entries generalizing p with
  | nil => nofun
  | cons entry rest ih =>
      obtain ⟨p', -, hstep, hlast⟩ := applyEntries_cons_finished hrun
      obtain ⟨format, _, _, hread⟩ := hstep.exists_read
      refine List.forall_mem_cons.2 ⟨⟨?_, format, hread.formatOf_eq⟩, ?_⟩
      · exact hforeseen.target_eq entry ▸ hread.target_eq
      · exact ih (hstep.foreseen hforeseen) hlast

/-- A place with an entry that a run gets through holds a document before the run. -/
theorem exists_holds {entries : List FileEntry} (hapart : Apart s disk place p.world)
    (hformat : ∀ entry ∈ entries, disk.locate (s.pathOf entry) = .ok place →
      formatOf entry = .ok format)
    (hsome : ∃ entry ∈ entries, disk.locate (s.pathOf entry) = .ok place)
    (hrun : applyEntries s entries p = (q, none)) :
    ∃ document, p.world.disk.Holds format place document := by
  induction entries generalizing p with
  | nil =>
      obtain ⟨entry, hmem, -⟩ := hsome
      cases hmem
  | cons entry rest ih =>
      obtain ⟨hentry, hrest⟩ := List.forall_mem_cons.1 hformat
      obtain ⟨p', -, hstep, hlast⟩ := applyEntries_cons_finished hrun
      by_cases hplace : disk.locate (s.pathOf entry) = .ok place
      · -- The first entry at the place reads what the place held from the start.
        obtain ⟨format', w, document, hread⟩ := hstep.exists_read
        obtain rfl : format' = format :=
          Except.ok.inj (hread.formatOf_eq.symm.trans (hentry hplace))
        have hw := hapart.logged hread.logged
        have hholds := (Document.load_eq_ok (hw.has_of_target (hread.target_eq_start hapart))
          ((hw.locate_eq _).trans hplace)).1 hread.load_eq
        exact ⟨document, hholds.of_node?_eq (hread.logged.node?_eq hapart.sink_ne).symm⟩
      · obtain ⟨other, hmem, hother⟩ := hsome
        have hlater : ∃ entry ∈ rest, disk.locate (s.pathOf entry) = .ok place := by
          rcases List.mem_cons.1 hmem with rfl | hmem
          · exact absurd hother hplace
          · exact ⟨other, hmem, hother⟩
        obtain ⟨document, hholds⟩ := ih (hapart.step hstep) hrest hlater hlast
        exact ⟨document, hholds.of_node?_eq (hstep.node?_eq hapart hplace).symm⟩

/-- A run that ends in success, or with missing variables, got through all files. -/
theorem exists_applyEntries_of_done {entries : List FileEntry} {w : World}
    (hdone : (∃ summary, (apply s entries w).2 = .ok summary) ∨
      ∃ names, (apply s entries w).2 = .error (.fault (.missingRequired names))) :
    ∃ q, applyEntries s entries { world := w } = (q, none) ∧
      q.world.Logged (apply s entries w).1 := by
  have hnames := applyEntries_ne_missingRequired s entries { world := w }
  rw [apply] at hdone ⊢
  rcases hrun : applyEntries s entries { world := w } with ⟨q, - | halt⟩
  · exact ⟨q, rfl, logged_conclude ..⟩
  · rw [hrun] at hdone hnames
    rcases hdone with ⟨summary, hok⟩ | ⟨names, herror⟩
    · cases hok
    · cases herror
      exact absurd rfl (hnames names)

/-- A run that gets through all files ends in success, or with missing variables. -/
theorem done_of_applyEntries {entries : List FileEntry} {w : World}
    (hrun : applyEntries s entries { world := w } = (q, none)) :
    (∃ summary, (apply s entries w).2 = .ok summary) ∨
      ∃ names, (apply s entries w).2 = .error (.fault (.missingRequired names)) := by
  rw [apply, hrun]
  simp only [conclude_snd]
  split
  · exact .inl ⟨_, rfl⟩
  · exact .inr ⟨_, rfl⟩

/-- **No update is lost.** A run that gets through all files leaves in each of them the document
that was there before, with the updates of all entries for the file set in it, in order. This is for
runs over existing files that a journal is kept apart from, for documents without tags, and on the
understanding that the documents which the run stores read back. -/
theorem load_apply {s : Setting} {entries : List FileEntry} {w : World}
    (hrequire : s.policy.requireExistingFiles = true) (hopen : w.Opened)
    (hjournal : ∀ entry ∈ entries, ∀ place, w.disk.locate (s.pathOf entry) = .ok place →
      w.journal.sink ≠ .file place)
    (huntagged : ∀ entry ∈ entries, ∀ format document, formatOf entry = .ok format →
      Document.load format w.disk (s.pathOf entry) = .ok document → document.Untagged)
    (hback : ∀ document, Stores s entries { world := w } document → document.ReadsBack)
    (hdone : (∃ summary, (apply s entries w).2 = .ok summary) ∨
      ∃ names, (apply s entries w).2 = .error (.fault (.missingRequired names))) :
    ∀ entry ∈ entries, ∃ place content format before after dirty,
      w.disk.find (s.pathOf entry) = .ok (place, .file content) ∧
      formatOf entry = .ok format ∧
      Document.load format w.disk (s.pathOf entry) = .ok before ∧
      before.setAll (s.updates (changesAt s w.disk place entries)) = .ok (after, dirty) ∧
      Document.load format (apply s entries w).1.disk (s.pathOf entry) = .ok after := by
  intro entry hentry
  obtain ⟨q, hrun, hlogged⟩ := exists_applyEntries_of_done hdone
  have hforeseen : Foreseen s w.disk ({ world := w } : Progress).world := .start hopen
  have hfound := found_of_applyEntries hforeseen hrun
  obtain ⟨htarget, format, hformat⟩ := hfound entry hentry
  have hthere := has_of_target hrequire htarget
  obtain ⟨place, hplace, -⟩ := Disk.has_iff.1 hthere
  have hapart : Apart s w.disk place ({ world := w } : Progress).world :=
    ⟨hrequire, hforeseen, hjournal entry hentry place hplace⟩
  have hformats : ∀ other ∈ entries, w.disk.locate (s.pathOf other) = .ok place →
      formatOf other = .ok format := by
    intro other hmem hother
    obtain ⟨-, format', hformat'⟩ := hfound other hmem
    rw [hformat', format_eq_of_locate_eq hplace hother hformat hformat']
  obtain ⟨before, hholds⟩ := exists_holds hapart hformats ⟨entry, hentry, hplace⟩ hrun
  have hload := (Document.load_eq_ok hthere hplace).2 hholds
  obtain ⟨place', content, hfind⟩ := Document.exists_file_of_load hthere hload
  obtain rfl : place' = place :=
    Except.ok.inj ((Disk.find_eq_ok.1 hfind).1.symm.trans hplace)
  obtain ⟨after, dirty, hset, hafter⟩ := applyEntries_holds hapart hformats hback
    (huntagged entry hentry format before hformat hload) hholds hrun
  refine ⟨place', content, format, before, after, dirty, hfind, hformat, hload, hset, ?_⟩
  have hq : Apart s w.disk place' q.world := by
    have hq := hapart.applyEntries entries
    rwa [hrun] at hq
  have hend := hq.logged hlogged
  exact (Document.load_eq_ok (hend.has_of_target htarget) ((hend.locate_eq _).trans hplace)).2
    (hafter.of_node?_eq (hlogged.node?_eq hq.sink_ne))

/-! ### An instance -/

/-- A table of one entry. -/
def sampleTable (value : String) : Properties := Properties.empty.insert "a" value

/-- A disk with a file of one entry, and no journal. -/
def sampleWorld : World where
  disk := { nodes := [(["b.properties"],
    .file (String.ofList (sampleTable "1").render).toUTF8)] }

/-- A change for the file, with a variable that has no value. -/
def sampleEntry : FileEntry where
  file := "b.properties"
  changes := [⟨⟨["a"], by simp, by simp, by simp⟩, "${X}"⟩]

/-- The file is seen from the working directory. -/
theorem pathOf_sampleEntry : Setting.pathOf {} sampleEntry = "./b.properties" := by
  simp [Setting.pathOf, sampleEntry, FileName.join, String.startsWith_char_eq_head?,
    String.endsWith_char_eq_getLast?]

/-- Its name leads to the one file on the disk. -/
theorem locate_sampleEntry : sampleWorld.disk.locate "./b.properties" = .ok ["b.properties"] := by
  have hparts : FileName.parts "./b.properties" = [".", "b.properties"] := by decide
  refine Disk.locate_eq_ok.2 ⟨by simp, by simp, by decide, ?_⟩
  have hstart : sampleWorld.disk.start "./b.properties" = [] := by
    simp [Disk.start, String.startsWith_char_eq_head?, sampleWorld]
  have hshort : ¬ 255 < "b.properties".utf8ByteSize := by decide
  rw [hparts, hstart]
  simp [Disk.walk, Disk.step, Disk.node?, hshort]

/-- So the file is there. -/
theorem has_sampleEntry : sampleWorld.disk.has "./b.properties" = true :=
  Disk.has_iff.2 ⟨_, locate_sampleEntry, by simp [Disk.node?, sampleWorld]⟩

/-- It is a file of properties. -/
theorem formatOf_sampleEntry : formatOf sampleEntry = .ok .properties := by
  have hfile : Format.ofFile? sampleEntry.file = some .properties := by decide
  rw [formatOf, hfile]

/-- It holds a table with one entry. -/
theorem load_sampleEntry :
    Document.load .properties sampleWorld.disk "./b.properties" =
      .ok (.properties (sampleTable "1")) := by
  refine (Document.load_eq_ok has_sampleEntry locate_sampleEntry).2 ⟨_, rfl, ?_⟩
  exact Document.ofBytes?_toUTF8 (Document.readsBack_properties (sampleTable "1")) rfl

/-- The changes leave an empty text at the key. -/
theorem setAll_sampleEntry :
    (Document.properties (sampleTable "1")).setAll (Setting.updates {} sampleEntry.changes) =
      .ok (.properties (sampleTable ""), true) := by
  have htext : Template.text (fun _ => none) "${X}" = "" := by decide +kernel
  simp only [Setting.updates, sampleEntry, List.map_cons, htext]
  rfl

/-- What comes of them can be stored. -/
theorem store_sampleEntry : ∃ disk, Document.store sampleWorld.disk "./b.properties"
    (.properties (sampleTable "")) = (disk, none) := by
  have hslash : "./b.properties".endsWith '/' = false := by
    simp [String.endsWith_char_eq_getLast?]
  have htarget : sampleWorld.disk.target "./b.properties" = .ok ["b.properties"] := by
    rw [Disk.target, hslash, locate_sampleEntry]
    rfl
  simp only [Document.store, Document.render?, Document.makeRoom_of_has has_sampleEntry,
    Disk.writeBytes, htarget]
  exact ⟨_, rfl⟩

/-- The run over the sample gets through. -/
theorem applyEntries_sampleEntry :
    ∃ q, applyEntries {} [sampleEntry] { world := sampleWorld } = (q, none) := by
  have hchanges : ∃ v, sampleWorld.Logged v ∧
      applyChanges {} "./b.properties" sampleEntry.changes (.properties (sampleTable "1")) false
        { world := sampleWorld } = _ :=
    applyChanges_of_setAll_ok setAll_sampleEntry false { world := sampleWorld }
  obtain ⟨v, hlogged, hchanges⟩ := hchanges
  obtain rfl := hlogged.eq_of_off rfl
  have hnote (r : Log.Record) :
      Progress.note r { world := sampleWorld } = { world := sampleWorld } :=
    congrArg (fun w => Progress.mk w .none {}) (World.note_of_off r rfl)
  obtain ⟨disk, hstore⟩ := store_sampleEntry
  simp only [applyEntries, applyEntry, target, pathOf_sampleEntry, has_sampleEntry, Bool.not_true,
    Bool.and_false, Bool.false_eq_true, if_false, formatOf_sampleEntry, hnote,
    applyFile_of_load (p := { world := sampleWorld }) load_sampleEntry, hchanges, Bool.or_true,
    hstore]
  exact ⟨_, rfl⟩

/-- The file of the sample is loaded after the run as it was with its update set. -/
theorem load_apply_sampleEntry : ∃ place content format before after dirty,
    sampleWorld.disk.find (Setting.pathOf {} sampleEntry) = .ok (place, .file content) ∧
    formatOf sampleEntry = .ok format ∧
    Document.load format sampleWorld.disk (Setting.pathOf {} sampleEntry) = .ok before ∧
    before.setAll (Setting.updates {} (changesAt {} sampleWorld.disk place [sampleEntry])) =
      .ok (after, dirty) ∧
    Document.load format (apply {} [sampleEntry] sampleWorld).1.disk
      (Setting.pathOf {} sampleEntry) = .ok after := by
  have hoff (place : Location) : sampleWorld.journal.sink ≠ .file place := fun h => by cases h
  obtain ⟨q, hrun⟩ := applyEntries_sampleEntry
  refine load_apply rfl (fun place h => absurd h (hoff place)) (fun _ _ place _ => hoff place) ?_ ?_
    (done_of_applyEntries hrun) sampleEntry List.mem_cons_self
  · intro entry hentry format document hread hload
    obtain rfl := List.mem_singleton.1 hentry
    cases hread.symm.trans formatOf_sampleEntry
    rw [pathOf_sampleEntry] at hload
    cases hload.symm.trans load_sampleEntry
    trivial
  · intro document hstores
    cases hstores with
    | here hread hload hset =>
        cases hread.symm.trans formatOf_sampleEntry
        rw [pathOf_sampleEntry] at hload
        cases hload.symm.trans load_sampleEntry
        cases hset.symm.trans setAll_sampleEntry
        exact Document.readsBack_properties _
    | later _ hstores => cases hstores

end ConfigGraft.ChangeSet
