import ConfigGraft.Proofs.ChangeSet.Fold
import ConfigGraft.Proofs.ChangeSet.Growth
import ConfigGraft.Proofs.Document.Conflict
import ConfigGraft.Proofs.Document.Stored
import ConfigGraft.Proofs.Placeholder

/-!
# What is kept of a file that is written over

A run writes a file over with the document that it has loaded from it, with some texts set. So all
that the file held elsewhere is kept, whether or not files have to exist.

This is for names that lead to the file before the run. Where files need not exist, a name may also
lead nowhere at first, because a directory on its way is missing: the empty document is loaded then.
The directory is made before the document is written, and with `..` in the name that can bring the
name to a file that was there all the time, and everything in it is lost. Without `..` it cannot, as
nothing stands in a directory that is new.

## Main results

* `agreesAt_apply` — **what a file held at paths that no change meets is kept;**
* `holds_apply_detour` — a run that drops what a file held.
-/

namespace ConfigGraft.ChangeSet

variable {s : Setting} {entry : FileEntry} {p q : Progress} {place : Location} {content : ByteArray}
  {format : Format}

/-- A step that gets through a file which is there leaves a document in it that agrees with the one
before at all paths which no change meets. -/
theorem EntryStep.agreesAt (hstep : EntryStep s entry p q none)
    (hfind : p.world.disk.find (s.pathOf entry) = .ok (place, .file content))
    (hspares : p.world.Spares (s.pathOf entry))
    (hback : ∀ format before after, formatOf entry = .ok format →
      Document.load format p.world.disk (s.pathOf entry) = .ok before →
      before.setAll (s.updates entry.changes) = .ok (after, true) → after.ReadsBack) :
    ∃ format before after, formatOf entry = .ok format ∧
      p.world.disk.Holds format place before ∧ q.world.disk.Holds format place after ∧
      ∀ path, (∀ change ∈ entry.changes, ¬ change.path.Meets path) →
        Document.AgreesAt path before after := by
  obtain ⟨hplace, hfile⟩ := Disk.find_eq_ok.1 hfind
  have hsink := hspares place hplace
  -- Records leave the file where it is, so it has been read as the document that it held.
  have hfound {v : World} (hlogged : p.world.Logged v) :
      v.disk.find (s.pathOf entry) = .ok (place, .file content) :=
    ((hlogged.spares_iff.2 hspares).find_eq_ok hlogged).2 hfind
  have hread {format : Format} {w : World} {before : Document}
      (hread : EntryRead s entry p format w before) :
      Document.ofBytes? format content = some before :=
    (Document.load_of_find (hfound hread.logged)).1 hread.load_eq
  cases hstep with
  | @kept format w v before after hentry hset hlogged =>
      have hbytes := hread hentry
      have hkept := (hentry.logged.trans hlogged).node?_eq hsink
      exact ⟨format, before, before, hentry.formatOf_eq, ⟨content, hfile, hbytes⟩,
        ⟨content, hkept.trans hfile, hbytes⟩, fun path _ => .refl path before⟩
  | @written format w v u before after disk hentry hset hlogged hstore hreported =>
      have hbytes := hread hentry
      have hv : p.world.Logged v := hentry.logged.trans hlogged
      have hthere : v.disk.has (s.pathOf entry) = true := by rw [Disk.has, hfound hv]
      obtain ⟨text, place', content', htext, hfind', rfl⟩ :=
        Document.store_eq_none hthere hstore
      obtain ⟨rfl, -⟩ := Prod.mk.inj (Except.ok.inj (hfind'.symm.trans (hfound hv)))
      have hformat : after.format = format :=
        (Document.format_setAll hset).trans (Document.format_ofBytes? hbytes)
      have hreads : after.ReadsBack := hback format before after hentry.formatOf_eq
        ((Document.load_of_find hfind).2 hbytes) hset
      have hwritten : u.disk.node? place' = some (.file text.toUTF8) := by
        have hkept : v.journal.sink ≠ .file place' := hv.sink_eq ▸ hsink
        rw [hreported.node?_eq hkept, Disk.node?_put (Disk.ne_nil_of_file hfile), if_pos rfl]
      refine ⟨format, before, after, hentry.formatOf_eq, ⟨content, hfile, hbytes⟩,
        ⟨text.toUTF8, hwritten, hformat ▸ Document.ofBytes?_toUTF8 hreads htext⟩, ?_⟩
      intro path hapart
      refine Document.agreesAt_setAll ?_ hset
      intro update hmem
      obtain ⟨change, hchange, rfl⟩ := List.mem_map.1 hmem
      exact hapart change hchange

/-- **What a file held at paths that no change meets is kept,** where the run has written to the
file. Its name has led to something before the run, or the disk is a tree and there is no `..` in
the name. This is for a file that the journal is not kept in, and on the understanding that the
document which the run stores reads back. -/
theorem agreesAt_apply {w : World}
    (hwritten : (apply s [entry] w).1.disk.locate (s.pathOf entry) = .ok place)
    (hfile : w.disk.node? place = some (.file content))
    (hway : w.disk.has (s.pathOf entry) = true ∨
      w.disk.IsTree ∧ ".." ∉ FileName.parts (s.pathOf entry))
    (hspares : w.Spares (s.pathOf entry))
    (hback : ∀ format before after, formatOf entry = .ok format →
      Document.load format w.disk (s.pathOf entry) = .ok before →
      before.setAll (s.updates entry.changes) = .ok (after, true) → after.ReadsBack)
    (hdone : (∃ summary, (apply s [entry] w).2 = .ok summary) ∨
      ∃ names, (apply s [entry] w).2 = .error (.fault (.missingRequired names))) :
    ∃ format before after, formatOf entry = .ok format ∧
      w.disk.Holds format place before ∧ (apply s [entry] w).1.disk.Holds format place after ∧
      ∀ path, (∀ change ∈ entry.changes, ¬ change.path.Meets path) →
        Document.AgreesAt path before after := by
  have hplace : w.disk.locate (s.pathOf entry) = .ok place := by
    have hgrows := grows_apply s [entry] w
    rcases hway with hthere | ⟨htree, hup⟩
    · obtain ⟨other, hother, -⟩ := Disk.has_iff.1 hthere
      rw [hother, ← hgrows.locate_eq_ok hother, hwritten]
    · exact htree.locate_of_grows hgrows hfile hup hwritten
  have hfind := Disk.find_eq_ok.2 ⟨hplace, hfile⟩
  obtain ⟨q, hrun, hlogged⟩ := exists_applyEntries_of_done hdone
  obtain ⟨mid, -, hstep, hlast⟩ := applyEntries_cons_finished hrun
  cases hlast
  obtain ⟨format, before, after, hformat, hbefore, hafter, hkept⟩ :=
    hstep.agreesAt hfind hspares hback
  have hsink : q.world.journal.sink ≠ .file place := hstep.sink_eq ▸ hspares place hplace
  exact ⟨format, before, after, hformat, hbefore, hafter.of_node?_eq (hlogged.node?_eq hsink),
    hkept⟩

/-- The sample file holds a document before and after the run, which agree where no change is. -/
theorem agreesAt_apply_sampleEntry : ∃ format before after, formatOf sampleEntry = .ok format ∧
    sampleWorld.disk.Holds format ["b.properties"] before ∧
    (apply {} [sampleEntry] sampleWorld).1.disk.Holds format ["b.properties"] after ∧
    ∀ path, (∀ change ∈ sampleEntry.changes, ¬ change.path.Meets path) →
      Document.AgreesAt path before after := by
  have hplace : sampleWorld.disk.locate (Setting.pathOf {} sampleEntry) = .ok ["b.properties"] := by
    rw [pathOf_sampleEntry, locate_sampleEntry]
  have hthere : sampleWorld.disk.has (Setting.pathOf {} sampleEntry) = true := by
    rw [pathOf_sampleEntry, has_sampleEntry]
  have hfile : sampleWorld.disk.node? ["b.properties"] =
      some (.file (String.ofList (sampleTable "1").render).toUTF8) := by
    simp [Disk.node?, sampleWorld]
  have hback (format : Format) (before after : Document)
      (hformat : formatOf sampleEntry = .ok format)
      (hload : Document.load format sampleWorld.disk (Setting.pathOf {} sampleEntry) = .ok before)
      (hset : before.setAll (Setting.updates {} sampleEntry.changes) = .ok (after, true)) :
      after.ReadsBack := by
    cases formatOf_sampleEntry.symm.trans hformat
    exact Document.readsBack_of_format
      ((Document.format_setAll hset).trans (Document.format_load hload))
  obtain ⟨q, hrun⟩ := applyEntries_sampleEntry
  exact agreesAt_apply ((grows_apply ..).locate_eq_ok hplace) hfile (.inl hthere)
    (World.spares_of_off rfl _) hback (done_of_applyEntries hrun)

/-! ### A detour -/

/-- What the file holds before the run, and after it. -/
def keptTable : Properties := Properties.empty.insert "keep" "1"

def lostTable : Properties := Properties.empty.insert "b" "2"

/-- A disk with the file, and no journal. -/
def detourWorld : World where
  disk := { nodes := [(["a.properties"], .file (String.ofList keptTable.render).toUTF8)] }

/-- A change for the file, by a name that leads through a directory which is missing. -/
def detourEntry : FileEntry where
  file := "x/../a.properties"
  changes := [⟨⟨["b"], by simp, by simp, by simp⟩, "2"⟩]

/-- The setting of a run that files need not exist for. -/
def detourSetting : Setting where
  policy := { requireExistingFiles := false }

/-- The disk once the directory is made. -/
def detourRoom : Disk := detourWorld.disk.put ["x"] .directory

/-- A name through `x` and back up is followed where `x` is a directory, and leads nowhere where `x`
is missing. -/
theorem locate_through {disk : Disk} (hhere : disk.here = []) {name : String} {rest : List String}
    (hparts : FileName.parts name = "." :: "x" :: ".." :: rest)
    (hname : name ≠ "" ∧ '\x00' ∉ name.toList ∧ name.utf8ByteSize < 4096) :
    (disk.node? ["x"] = none → disk.locate name = .error .notFound) ∧
      (disk.node? ["x"] = some .directory → disk.locate name = disk.walk [] rest) := by
  have hx : "x".utf8ByteSize = 1 := by decide
  have hstart : disk.start name = [] := by simp [Disk.start, hhere]
  obtain ⟨hempty, hzero, hsize⟩ := hname
  rw [Disk.locate_of_parts hparts hempty hzero hsize, hstart]
  constructor
  · intro hnone
    simp [Disk.walk, Disk.step, hnone, hx]
  · intro hdirectory
    simp [Disk.walk, Disk.step, hdirectory, hx]

/-- The name of the directory that is missing, and back up. -/
theorem parts_up : FileName.parts "./x/.." = [".", "x", ".."] := by decide

/-- The name that leads through it to a file beside it. -/
theorem parts_around :
    FileName.parts "./x/../a.properties" = [".", "x", "..", "a.properties"] := by decide

/-- Before the run the name leads nowhere, and there is no `x`. -/
theorem locate_detourWorld :
    detourWorld.disk.locate "./x/.." = .error .notFound ∧
      detourWorld.disk.locate "./x/../a.properties" = .error .notFound ∧
      detourWorld.disk.makeDirectory "./x" = .ok detourRoom := by
  have hnone : detourWorld.disk.node? ["x"] = none := by
    simp [Disk.node?, detourWorld, Association.lookup_cons_eq]
  refine ⟨(locate_through rfl parts_up ⟨by simp, by simp, by decide⟩).1 hnone,
    (locate_through rfl parts_around ⟨by simp, by simp, by decide⟩).1 hnone, ?_⟩
  have hparts : FileName.parts "./x" = [".", "x"] := by decide
  have hx : "x".utf8ByteSize = 1 := by decide
  have hplace : detourWorld.disk.locate "./x" = .ok ["x"] := by
    rw [Disk.locate_of_parts hparts (by simp) (by simp) (by decide)]
    simp [Disk.start, detourWorld, Disk.walk, Disk.step, hx]
  simp only [Disk.makeDirectory, hplace, hnone, detourRoom]

/-- Once the directory is made, the name leads to the file. -/
theorem locate_detourRoom :
    detourRoom.locate "./x/.." = .ok [] ∧
      detourRoom.locate "./x/../a.properties" = .ok ["a.properties"] := by
  have hmade : detourRoom.node? ["x"] = some .directory := by simp [detourRoom, Disk.node?_put]
  have ha : "a.properties".utf8ByteSize = 12 := by decide
  refine ⟨(locate_through rfl parts_up ⟨by simp, by simp, by decide⟩).2 hmade, ?_⟩
  rw [(locate_through rfl parts_around ⟨by simp, by simp, by decide⟩).2 hmade]
  simp [Disk.walk, Disk.step, ha]

/-- Room for the file is made by making `x`. -/
theorem makeRoom_detour :
    Document.makeRoom detourWorld.disk "./x/../a.properties" = (detourRoom, none) := by
  have hparent : FileName.parent? "./x/../a.properties" = some "./x/.." := by decide
  have hup : FileName.parent? "./x/.." = some "./x" := by decide
  have hlength : "./x/..".length = 6 := by decide
  obtain ⟨hbefore, -, hmade⟩ := locate_detourWorld
  obtain ⟨hafter, -⟩ := locate_detourRoom
  have hhas : detourWorld.disk.has "./x/.." = false := by
    rw [Disk.has, Disk.find, hbefore]
  have hmissing : detourWorld.disk.makeDirectory "./x/.." = .error .notFound := by
    rw [Disk.makeDirectory, hbefore]
  have hthere : detourRoom.makeDirectory "./x/.." = .error .exists := by
    simp only [Disk.makeDirectory, hafter, Disk.node?_nil]
  have hdirectory : detourRoom.isDirectory "./x/.." = true := by
    simp only [Disk.isDirectory, Disk.find, hafter, Disk.node?_nil]
  simp [Document.makeRoom, hparent, hhas, Disk.makeDirectories, hlength, Disk.makeDirectoriesUp,
    hmissing, hup, hmade, hthere, hdirectory]

/-- The name leads nowhere while the directory is missing, so the empty table is loaded. -/
theorem load_detour : Document.load .properties detourWorld.disk "./x/../a.properties" =
    .ok (.properties .empty) := by
  have hhas : detourWorld.disk.has "./x/../a.properties" = false := by
    rw [Disk.has, Disk.find, locate_detourWorld.2.1]
  rw [Document.load, hhas]
  rfl

/-- Storing makes the directory, and the name then leads to the old file. -/
theorem store_detour :
    Document.store detourWorld.disk "./x/../a.properties" (.properties lostTable) =
      (detourRoom.put ["a.properties"] (.file (String.ofList lostTable.render).toUTF8), none) := by
  have hfile : detourRoom.node? ["a.properties"] =
      some (.file (String.ofList keptTable.render).toUTF8) := by
    rw [detourRoom, Disk.node?_put (List.cons_ne_nil _ _)]
    simp [Disk.node?, detourWorld]
  have htarget : detourRoom.target "./x/../a.properties" = .ok ["a.properties"] :=
    Disk.target_eq_ok.2 ⟨by simp [String.endsWith_char_eq_getLast?], locate_detourRoom.2,
      by simp [hfile]⟩
  simp only [Document.store, Document.render?, makeRoom_detour, Disk.writeBytes, htarget]

/-- The change puts an entry into the empty table. -/
theorem setAll_detour :
    (Document.properties .empty).setAll (detourSetting.updates detourEntry.changes) =
      .ok (.properties lostTable, true) := by
  have htext : Template.text (fun _ => none) "2" = "2" :=
    Template.text_of_not_mem _ (by decide)
  simp only [Setting.updates, detourSetting, detourEntry, List.map_cons, htext]
  rfl

/-- The run gets through, and has written over the file. -/
theorem apply_detour :
    apply detourSetting [detourEntry] detourWorld =
      (⟨detourRoom.put ["a.properties"] (.file (String.ofList lostTable.render).toUTF8), {}⟩,
        .ok ⟨1, 1⟩) := by
  have hpath : detourSetting.pathOf detourEntry = "./x/../a.properties" := by
    simp [Setting.pathOf, detourSetting, detourEntry, FileName.join,
      String.startsWith_char_eq_head?, String.endsWith_char_eq_getLast?]
  have hformat : Format.ofFile? detourEntry.file = some .properties := by decide
  have hgather : (detourSetting.gather detourEntry.changes .none).isEmpty = true := by
    decide +kernel
  obtain ⟨v, hlogged, hchanges⟩ : ∃ v, detourWorld.Logged v ∧
      applyChanges detourSetting "./x/../a.properties" detourEntry.changes (.properties .empty)
        false { world := detourWorld } = _ :=
    applyChanges_of_setAll_ok setAll_detour false { world := detourWorld }
  obtain rfl := hlogged.eq_of_off rfl
  have hquiet (r : Log.Record) (disk : Disk) :
      World.note r { detourWorld with disk } = { detourWorld with disk } :=
    World.note_of_off r rfl
  have hrequire : detourSetting.policy.requireExistingFiles = false := rfl
  have hstart (r : Log.Record) :
      Progress.note r { world := detourWorld } = { world := detourWorld } :=
    congrArg (fun w => Progress.mk w .none {}) (World.note_of_off r rfl)
  simp only [apply, applyEntries, applyEntry, target, hpath, hrequire, Bool.false_and,
    Bool.false_eq_true, if_false, formatOf, hformat, hstart,
    applyFile_of_load (p := { world := detourWorld }) load_detour, hchanges, Bool.or_true,
    store_detour]
  simp only [conclude, Progress.note, Progress.withDisk, hquiet, hgather, if_true]
  rfl

/-- **A run that drops what a file held.** The name does not lead to the file before the run, and
does so when the file is written. -/
theorem holds_apply_detour :
    (apply detourSetting [detourEntry] detourWorld).2 = .ok ⟨1, 1⟩ ∧
      detourWorld.disk.Holds .properties ["a.properties"] (.properties keptTable) ∧
      (apply detourSetting [detourEntry] detourWorld).1.disk.Holds .properties ["a.properties"]
        (.properties lostTable) ∧
      ∃ path, (∀ change ∈ detourEntry.changes, ¬ change.path.Meets path) ∧
        (Document.properties keptTable).get? path = some "1" ∧
        (Document.properties lostTable).get? path = none := by
  have hbytes (table : Properties) :
      Document.ofBytes? .properties (String.ofList table.render).toUTF8 =
        some (.properties table) :=
    Document.ofBytes?_toUTF8 (Document.readsBack_properties table) rfl
  rw [apply_detour]
  refine ⟨rfl, ⟨_, ?_, hbytes keptTable⟩, ⟨_, ?_, hbytes lostTable⟩, ?_⟩
  · simp [Disk.node?, detourWorld]
  · simp [Disk.node?_put]
  · exact ⟨⟨["keep"], by simp, by simp, by simp⟩, by decide, by decide, by decide⟩

end ConfigGraft.ChangeSet
