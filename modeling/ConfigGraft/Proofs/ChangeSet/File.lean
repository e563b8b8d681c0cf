import ConfigGraft.Proofs.ChangeSet.Step
import ConfigGraft.Proofs.Document.Again
import ConfigGraft.Proofs.Document.Stored
import ConfigGraft.Proofs.Placeholder

/-!
# Changes to one file, made and made again

`FileStep` lists what changes to a file do where nothing fails. What they leave can be loaded and
changed again if its text reads back, and the same changes then leave all files as they are: they
may make differences on the way, but what is written in the end is the text that is there.

## Main results

* `applyFile_step` — **what changes to a file do where nothing fails;**
* `FileStep.stored` — what they leave in the file;
* `applyFile_again` — **the same changes again leave the file as it is.**
-/

namespace ConfigGraft.ChangeSet

variable {s : Setting} {path : String} {format : Format} {changes : List Change} {p q : Progress}

/-! ### Where nothing fails -/

/-- **What changes to a file do where nothing fails,** by the progress that comes of it and whether
the file was written. -/
inductive FileStep (s : Setting) (path : String) (format : Format) (changes : List Change)
    (p : Progress) : Progress → Bool → Prop
  /-- No change makes a difference, and nothing is written. -/
  | kept {before after : Document} {q : Progress} :
      Document.load format p.world.disk path = .ok before →
      before.setAll (s.updates changes) = .ok (after, false) → p.world.Logged q.world →
      FileStep s path format changes p q false
  /-- The changed document is written. -/
  | written {before after : Document} {v : World} {disk : Disk} {q : Progress} :
      Document.load format p.world.disk path = .ok before →
      before.setAll (s.updates changes) = .ok (after, true) → p.world.Logged v →
      Document.store v.disk path after = (disk, none) → World.Logged { v with disk } q.world →
      FileStep s path format changes p q true

/-- Changes without a difference are made where their document is loaded. -/
theorem applyFile_of_kept {before after : Document}
    (hload : Document.load format p.world.disk path = .ok before)
    (hset : before.setAll (s.updates changes) = .ok (after, false)) :
    ∃ q, applyFile s path format changes p = (q, .ok false) ∧ p.world.Logged q.world := by
  obtain ⟨v, hlogged, hrun⟩ := applyChanges_of_setAll_ok hset false p
  rw [applyFile_of_load hload, hrun]
  exact ⟨_, rfl, hlogged⟩

/-- Changes with a difference are made where their document is loaded and stored. -/
theorem applyFile_of_written {before after : Document}
    (hload : Document.load format p.world.disk path = .ok before)
    (hset : before.setAll (s.updates changes) = .ok (after, true))
    (hstore : ∀ v, p.world.Logged v → ∃ disk, Document.store v.disk path after = (disk, none)) :
    ∃ v disk q, p.world.Logged v ∧ Document.store v.disk path after = (disk, none) ∧
      applyFile s path format changes p = (q, .ok true) ∧
      World.Logged { v with disk } q.world := by
  obtain ⟨v, hlogged, hrun⟩ := applyChanges_of_setAll_ok hset false p
  obtain ⟨disk, hdisk⟩ := hstore v hlogged
  have hq : applyFile s path format changes p =
      (⟨World.note (updatedRecord path format) { v with disk }, s.gather changes p.missing,
        p.summary⟩, .ok true) := by
    rw [applyFile_of_load hload, hrun]
    simp only [Bool.or_true, hdisk]
    rfl
  exact ⟨v, disk, _, hlogged, hdisk, hq, .note _ (.refl _)⟩

/-- **Changes to a file that end without a fault are such a step.** The cases are the branches of
the run in the order of its text. -/
theorem applyFile_step {written : Bool} (h : applyFile s path format changes p = (q, .ok written)) :
    FileStep s path format changes p q written := by
  rcases hload : Document.load format p.world.disk path with fault | before
  · rw [applyFile, hload] at h
    cases h
  rcases hset : before.setAll (s.updates changes) with crash | ⟨after, dirty⟩
  · obtain ⟨v, missing, -, hrun⟩ := applyChanges_of_setAll_error hset false p
    rw [applyFile_of_load hload, hrun] at h
    cases h
  cases dirty with
  | false =>
      obtain ⟨q', hrun, hlogged⟩ := applyFile_of_kept hload hset
      rw [hrun] at h
      cases h
      exact .kept hload hset hlogged
  | true =>
      obtain ⟨v, hlogged, hrun⟩ := applyChanges_of_setAll_ok hset false p
      rw [applyFile_of_load hload, hrun] at h
      simp only [Bool.or_true] at h
      rcases hstore : Document.store v.disk path after with ⟨disk, - | fault⟩
      · rw [hstore] at h
        cases h
        exact .written hload hset hlogged hstore (.note _ (.refl _))
      · rw [hstore] at h
        cases h

/-- What is written is the changed document, and it is stored where the name of the file leads. -/
theorem FileStep.stored (h : FileStep s path format changes p q true)
    (hspares : q.world.Spares path) :
    ∃ before after text place, Document.load format p.world.disk path = .ok before ∧
      before.setAll (s.updates changes) = .ok (after, true) ∧ after.format = format ∧
      after.render? = some text ∧ q.world.disk.Stored path place text := by
  cases h with
  | @written before after v disk _ hload hset hlogged hstore hreported =>
      obtain ⟨text, place, htext, hstored⟩ := Document.stored_of_store hstore
      have hformat : after.format = format :=
        (Document.format_setAll hset).trans (Document.format_load hload)
      exact ⟨before, after, text, place, hload, hset, hformat, htext,
        Disk.Stored.logged hstored hreported hspares⟩

/-- Changes to a file that is not in the working directory make it there. -/
theorem applyFile_of_absent {after : Document} {text : String}
    (hoff : p.world.journal.sink = .off) (hname : FileName.IsPart path)
    (hhere : p.world.disk.node? p.world.disk.here = some .directory)
    (hnone : p.world.disk.node? (p.world.disk.here ++ [path]) = none)
    (hset : (Document.empty format).setAll (s.updates changes) = .ok (after, true))
    (htext : after.render? = some text) :
    ∃ q place, applyFile s path format changes p = (q, .ok true) ∧ q.world.journal.sink = .off ∧
      q.world.disk.Stored path place text := by
  have hparent := FileName.parent?_of_isPart hname
  have htarget := Disk.target_part hhere hname (by rw [hnone]; nofun)
  have hload : Document.load format p.world.disk path = .ok (.empty format) := by
    rw [Document.load, Disk.has_part_eq_false hhere hname hnone, if_neg Bool.false_ne_true]
  have hstore (v : World) (hlogged : p.world.Logged v) :
      ∃ disk, Document.store v.disk path after = (disk, none) := by
    rw [hlogged.eq_of_off hoff]
    simp only [Document.store, htext, Document.makeRoom, hparent, true_or, if_true,
      Disk.writeBytes, htarget]
    exact ⟨_, rfl⟩
  obtain ⟨v, disk, q, hlogged, hdisk, hrun, hreported⟩ := applyFile_of_written hload hset hstore
  have hoff' : q.world.journal.sink = .off :=
    (hreported.sink_eq.trans hlogged.sink_eq).trans hoff
  obtain ⟨text', place', htext', hstored⟩ := Document.stored_of_store hdisk
  obtain rfl : text' = text := Option.some.inj (htext'.symm.trans htext)
  exact ⟨q, place', hrun, hoff', Disk.Stored.logged hstored hreported (World.spares_of_off hoff' _)⟩

/-! ### The same changes again -/

variable {p' : Progress}

/-- Where the changes have made no difference, they make none again. -/
theorem FileStep.again_of_kept (h : FileStep s path format changes p q false)
    (hspares : q.world.Spares path) (hdisk : p'.world.disk = q.world.disk) :
    ∃ r, applyFile s path format changes p' = (r, .ok false) ∧ p'.world.Logged r.world := by
  cases h with
  | kept hload hset hlogged =>
      have hsame := Document.load_congr (fun _ _ => hspares.find_eq_ok hlogged) format
      rw [← hdisk, hload] at hsame
      exact applyFile_of_kept hsame hset

/-- Where the changes were written, what they make of the file again is the text that it holds. -/
theorem FileStep.again_of_written (h : FileStep s path format changes p q true)
    (hspares : q.world.Spares path)
    (hback : ∀ before after, Document.load format p.world.disk path = .ok before →
      before.setAll (s.updates changes) = .ok (after, true) → after.ReadsBack)
    (hdisk : p'.world.disk = q.world.disk) (hspares' : p'.world.Spares path) :
    ∃ r again, applyFile s path format changes p' = (r, .ok again) ∧
      ∀ place, p'.world.journal.sink ≠ .file place →
        r.world.disk.node? place = p'.world.disk.node? place := by
  obtain ⟨before, after, text, place, hload, hset, rfl, htext, hstored⟩ := h.stored hspares
  rw [← hdisk] at hstored
  have hload' : Document.load after.format p'.world.disk path = .ok after :=
    (hstored.load_eq_ok htext).2 (hback before after hload hset text htext)
  obtain ⟨again, hagain⟩ := Document.setAll_again hset
  cases again with
  | false =>
      obtain ⟨r, hrun, hlogged⟩ := applyFile_of_kept hload' hagain
      exact ⟨r, false, hrun, fun place hsink => hlogged.node?_eq hsink⟩
  | true =>
      -- The text is written over itself, and everything else is left alone.
      have hstore (v : World) (hlogged : p'.world.Logged v) :
          Document.store v.disk path after = (v.disk.put place (.file text.toUTF8), none) :=
        (hstored.logged hlogged (hlogged.spares_iff.2 hspares')).store_eq htext
      obtain ⟨v, disk, r, hlogged, hdisk', hrun, hreported⟩ := applyFile_of_written hload' hagain
        fun v hlogged => ⟨_, hstore v hlogged⟩
      obtain rfl : disk = v.disk.put place (.file text.toUTF8) :=
        (congrArg Prod.fst hdisk').symm.trans (congrArg Prod.fst (hstore v hlogged))
      refine ⟨r, true, hrun, fun other hsink => ?_⟩
      have hne : place ≠ [] := Disk.ne_nil_of_file hstored.node?_eq
      have hsink' : v.journal.sink ≠ .file other := hlogged.sink_eq ▸ hsink
      calc r.world.disk.node? other
          = (v.disk.put place (.file text.toUTF8)).node? other := hreported.node?_eq hsink'
        _ = if other = place then some (.file text.toUTF8) else v.disk.node? other :=
            Disk.node?_put hne ..
        _ = p'.world.disk.node? other := by
            split
            · rename_i heq
              rw [heq, hstored.node?_eq]
            · exact hlogged.node?_eq hsink

/-- **The same changes again change nothing.** Once a list of updates is set in a document, setting
it again leaves the document as it is, even where the updates are in conflict. So once changes are
made to a file, and on the understanding that a document which was stored reads back, the same
changes can be made again and leave all files as they are, but for that of the journal. -/
theorem applyFile_again :
    (∀ (document last : Document) (updates : List (KeyPath × String)) (dirty : Bool),
      document.setAll updates = .ok (last, dirty) →
      ∃ again, last.setAll updates = .ok (last, again)) ∧
    ∀ (s : Setting) (path : String) (format : Format) (changes : List Change)
      (p q p' : Progress) (written : Bool),
      applyFile s path format changes p = (q, .ok written) → q.world.Spares path →
      (∀ before after, Document.load format p.world.disk path = .ok before →
        before.setAll (s.updates changes) = .ok (after, true) → after.ReadsBack) →
      p'.world.disk = q.world.disk → p'.world.Spares path →
      ∃ r again, applyFile s path format changes p' = (r, .ok again) ∧
        ∀ place, p'.world.journal.sink ≠ .file place →
          r.world.disk.node? place = q.world.disk.node? place := by
  refine ⟨fun _ _ _ _ => Document.setAll_again, ?_⟩
  intro s path format changes p q p' written hrun hspares hback hdisk hspares'
  have hstep := applyFile_step hrun
  rw [← hdisk]
  cases written with
  | false =>
      obtain ⟨r, hagain, hlogged⟩ := hstep.again_of_kept hspares hdisk
      exact ⟨r, false, hagain, fun place hsink => hlogged.node?_eq hsink⟩
  | true => exact hstep.again_of_written hspares hback hdisk hspares'

/-! ### An instance -/

/-- Changes of which the second is in the way of the first. -/
def sampleChanges : List Change :=
  [⟨⟨["k"], by simp, by simp, by simp⟩, "1"⟩, ⟨⟨["k"], by simp, by simp, by simp⟩, "2"⟩]

/-- What the changes make of the empty table. -/
def sampleResult : Properties := (Properties.empty.insert "k" "1").insert "k" "2"

/-- The second change replaces the text of the first. -/
theorem setAll_sampleChanges :
    (Document.empty .properties).setAll (Setting.updates {} sampleChanges) =
      .ok (.properties sampleResult, true) := by
  have hone : Template.text (fun _ => none) "1" = "1" :=
    Template.text_of_not_mem _ (by decide)
  have htwo : Template.text (fun _ => none) "2" = "2" :=
    Template.text_of_not_mem _ (by decide)
  simp only [Setting.updates, sampleChanges, List.map_cons, hone, htwo]
  rfl

/-- The file is made in the working directory, and no journal is kept. -/
theorem applyFile_sampleChanges : ∃ q,
    applyFile {} "a.properties" .properties sampleChanges { world := {} } = (q, .ok true) ∧
      q.world.journal.sink = .off := by
  have hname : FileName.IsPart "a.properties" := by decide
  obtain ⟨q, place, hrun, hoff, -⟩ := applyFile_of_absent (p := { world := {} }) rfl hname rfl rfl
    setAll_sampleChanges rfl
  exact ⟨q, hrun, hoff⟩

/-- The changes make a new file, and making them again leaves it as it is. -/
theorem applyFile_again_sampleChanges :
    (∃ again, (Document.properties sampleResult).setAll (Setting.updates {} sampleChanges) =
      .ok (.properties sampleResult, again)) ∧
    ∃ q r again,
      applyFile {} "a.properties" .properties sampleChanges { world := {} } = (q, .ok true) ∧
      applyFile {} "a.properties" .properties sampleChanges q = (r, .ok again) ∧
      r.world.disk.node? ["a.properties"] = q.world.disk.node? ["a.properties"] := by
  refine ⟨applyFile_again.1 _ _ _ _ setAll_sampleChanges, ?_⟩
  obtain ⟨q, hrun, hoff⟩ := applyFile_sampleChanges
  have hspares := World.spares_of_off hoff "a.properties"
  have hback (before after : Document)
      (hload : Document.load .properties {} "a.properties" = .ok before)
      (hset : before.setAll (Setting.updates {} sampleChanges) = .ok (after, true)) :
      after.ReadsBack :=
    Document.readsBack_of_format ((Document.format_setAll hset).trans (Document.format_load hload))
  obtain ⟨r, again, hagain, hsame⟩ :=
    applyFile_again.2 _ _ _ _ _ _ _ _ hrun hspares hback rfl hspares
  exact ⟨q, r, again, hrun, hagain, hsame _ (by simp [hoff])⟩

end ConfigGraft.ChangeSet
