import ConfigGraft.Proofs.ChangeSet.File
import ConfigGraft.Proofs.Document.Independent
import ConfigGraft.Proofs.Document.Room

/-!
# Changes in any order

Changes to a file that do not get in each other's way can be made in any order: the document that
comes of them is the same up to the order of keys inside mappings, each change makes a difference or
none as before, and so the file is written or not as before. Where it cannot be read or written, the
fault is the same too, for the orders differ in their reports only, and reports of as many changes
leave disks of the same shape.

## Main results

* `World.InStep.note` — worlds that record as much as each other keep disks of the same shape;
* `Document.store_snd_eq` — documents that can both be written are stored with the same outcome;
* `applyFile_independent` — **independent changes can be made in any order.**
-/

namespace ConfigGraft

/-! ### Reports -/

/-- Adding to a file at the same place keeps the shape of disks the same, whatever is added. -/
theorem Disk.SameShape.appendAt {d e : Disk} (h : d.SameShape e) (place : Location)
    (content content' : ByteArray) :
    (d.appendAt place content).SameShape (e.appendAt place content') := by
  have hput (node node' : Disk.Node) (hkind : node'.isDirectory = node.isDirectory) :
      (d.put place node).SameShape (e.put place node') := by
    refine ⟨h.here, fun other => ?_⟩
    rw [Disk.node?_put_eq, Disk.node?_put_eq]
    split
    · exact congrArg some hkind
    · exact h.kind other
  have hkind := h.kind place
  rw [Disk.appendAt, Disk.appendAt]
  rcases hd : d.node? place with - | - | old <;> rcases he : e.node? place with - | - | old' <;>
    simp only [hd, he, Option.map_none, Option.map_some, Disk.Node.isDirectory, reduceCtorEq,
      Option.some.injEq, Bool.false_eq_true, Bool.true_eq_false] at hkind ⊢
  · exact hput _ _ rfl
  · exact h
  · exact hput _ _ rfl

/-- Worlds are **in step** if they keep the same records in the same place, and have disks of the
same shape. -/
structure World.InStep (w v : World) : Prop where
  filter_eq : v.journal.filter = w.journal.filter
  sink_eq : v.journal.sink = w.journal.sink
  shape : w.disk.SameShape v.disk

/-- **Worlds stay in step** if each of them is told a record, and both or none of these are kept. -/
theorem World.InStep.note {w v : World} (h : w.InStep v) {r r' : Log.Record}
    (hkeeps : ∀ filter : Log.Filter, filter.keeps r' = filter.keeps r) :
    (w.note r).InStep (v.note r') := by
  rw [World.note, World.note, h.filter_eq, hkeeps]
  split
  · rw [World.write, World.write, h.sink_eq]
    cases hsink : w.journal.sink with
    | off => exact h
    | stdout | stderr => exact ⟨h.filter_eq, h.sink_eq, h.shape⟩
    | file place => exact ⟨h.filter_eq, h.sink_eq, h.shape.appendAt place _ _⟩
  · exact h

/-! ### Storing -/

/-- **Documents that can both be written are stored with the same outcome** on disks of the same
shape. -/
theorem Document.store_snd_eq {d e : Disk} (h : d.SameShape e) {document other : Document}
    (hwritten : other.render?.isSome = document.render?.isSome) (path : String) :
    (store e path other).2 = (store d path document).2 := by
  -- Nothing is known of what the files hold.
  have hagree : Disk.AgreeOff (fun _ => True) d e :=
    ⟨h, fun _ hoff => absurd trivial hoff, fun hnone => absurd trivial (hnone [])⟩
  rw [store, store]
  rcases hdocument : document.render? with - | text <;> rcases hother : other.render? with - | text'
  · rfl
  · simp [hdocument, hother] at hwritten
  · simp [hdocument, hother] at hwritten
  · obtain ⟨hfault, hroom⟩ := makeRoom_agree hagree path
    dsimp only
    generalize makeRoom d path = x at hfault hroom ⊢
    generalize makeRoom e path = y at hfault hroom ⊢
    obtain ⟨⟨d', fault?⟩, e', fault?'⟩ := x, y
    obtain rfl : fault?' = fault? := hfault
    cases fault?' with
    | some fault => rfl
    | none =>
        simp only [Disk.writeBytes, hroom.shape.target_eq]
        cases d'.target path <;> rfl

namespace ChangeSet

variable {s : Setting} {path : String} {format : Format} {changes others : List Change}

/-! ### Two orders -/

/-- As many changes are reported by as many records. -/
theorem inStep_applyChanges (path : String) (hlength : others.length = changes.length)
    {document document' last last' : Document} {changed changed' : Bool}
    (h : document.setAll (s.updates changes) = .ok (last, changed))
    (h' : document'.setAll (s.updates others) = .ok (last', changed')) (dirty dirty' : Bool)
    {p q : Progress} (hstep : p.world.InStep q.world) :
    (applyChanges s path changes document dirty p).1.world.InStep
      (applyChanges s path others document' dirty' q).1.world := by
  induction changes generalizing others document document' changed changed' dirty dirty' p q with
  | nil =>
      rw [List.length_eq_zero_iff.1 hlength]
      exact hstep
  | cons change rest ih =>
      obtain ⟨other, more, rfl⟩ := List.exists_cons_of_length_eq_add_one hlength
      obtain ⟨next, first, later, hset, hrest, -⟩ := Document.setAll_cons_eq_ok.1 h
      obtain ⟨next', first', later', hset', hrest', -⟩ := Document.setAll_cons_eq_ok.1 h'
      rw [applyChanges_cons, applyChanges_cons, hset, hset']
      exact ih (Nat.succ.inj hlength) hrest hrest' _ _ (hstep.note fun _ => rfl)

/-- How changes to a file end: with the fault of reading it, with a crash, or else with whether any
of them made a difference, unless storing it fails. -/
theorem applyFile_snd_of_setAll {document last : Document} {p : Progress} {dirty : Bool}
    (hload : Document.load format p.world.disk path = .ok document)
    (hset : document.setAll (s.updates changes) = .ok (last, dirty)) :
    (applyFile s path format changes p).2 =
      if dirty then
        match (Document.store (applyChanges s path changes document false p).1.world.disk path
          last).2 with
        | some fault => .error (.fault fault)
        | none => .ok true
      else .ok false := by
  obtain ⟨v, -, hrun⟩ := applyChanges_of_setAll_ok hset false p
  rw [applyFile_of_load hload, hrun]
  cases dirty with
  | false => rfl
  | true =>
      simp only [Bool.or_true, if_true]
      rcases Document.store v.disk path last with ⟨disk, - | fault⟩ <;> rfl

/-- The changes of a file in another order end in the same way, unless they crash. -/
theorem applyFile_snd_eq (hperm : changes.Perm others)
    (hapart : changes.Pairwise fun change other => change.path.Independent format other.path)
    {p : Progress}
    (hcrash : ∀ crash, (applyFile s path format changes p).2 ≠ .error (.crash crash)) :
    (applyFile s path format others p).2 = (applyFile s path format changes p).2 := by
  rcases hload : Document.load format p.world.disk path with fault | document
  · simp only [applyFile, hload]
  have hset := Document.setAll_eq_setEach (s.updates changes) document
  rcases heach : document.setEach (s.updates changes) with crash | ⟨last, report⟩
  · rw [heach] at hset
    obtain ⟨v, missing, -, hrun⟩ :=
      @applyChanges_of_setAll_error s path changes _ _ hset false p
    rw [applyFile_of_load hload, hrun] at hcrash
    exact absurd rfl (hcrash crash)
  · have hformat : document.format = format := Document.format_load hload
    have hupdates : (s.updates changes).Perm (s.updates others) := hperm.map _
    have hpaths : (s.updates changes).Pairwise fun update other =>
        update.1.Independent document.format other.1 :=
      List.pairwise_map.2 (hformat.symm ▸ hapart)
    obtain ⟨last', report', heach', hsame, hreport⟩ := Document.setEach_perm hupdates hpaths heach
    have hset' := Document.setAll_eq_setEach (s.updates others) document
    rw [heach] at hset
    rw [heach'] at hset'
    have hworlds := inStep_applyChanges path hperm.length_eq.symm hset hset' false false
      (p := p) (q := p) ⟨rfl, rfl, .refl _⟩
    rw [applyFile_snd_of_setAll hload hset, applyFile_snd_of_setAll hload hset', hreport.any_eq,
      Document.store_snd_eq hworlds.shape hsame.isSome_render?]

/-- **Independent changes can be made in any order.** In a document, texts at independent paths can
be set in every order if they can be set in one: the documents that come of it are the same up to
the order of keys inside mappings, and tables of properties are the same; and each path is told the
same about whether its text was another one before. So changes to a file end in every order in the
same way, be it written, left alone or met by a fault, unless they crash. -/
theorem applyFile_independent :
    (∀ (document last : Document) (updates others : List (KeyPath × String))
      (report : List (KeyPath × Bool)),
      updates.Perm others →
      (updates.Pairwise fun update other => update.1.Independent document.format other.1) →
      document.setEach updates = .ok (last, report) →
      ∃ last' report', document.setEach others = .ok (last', report') ∧ last.Reordered last' ∧
        report.Perm report') ∧
    ∀ (s : Setting) (path : String) (format : Format) (changes others : List Change) (p : Progress),
      changes.Perm others →
      (changes.Pairwise fun change other => change.path.Independent format other.path) →
      (∀ crash, (applyFile s path format changes p).2 ≠ .error (.crash crash)) →
      (applyFile s path format others p).2 = (applyFile s path format changes p).2 :=
  ⟨fun _ _ _ _ _ hperm hapart => Document.setEach_perm hperm hapart,
    fun _ _ _ _ _ _ hperm hapart => applyFile_snd_eq hperm hapart⟩

/-! ### An instance -/

/-- Two changes below a key. -/
def sampleSiblings : List Change :=
  [⟨⟨["a", "b"], by simp, by simp, by simp⟩, "1"⟩, ⟨⟨["a", "c"], by simp, by simp, by simp⟩, "2"⟩]

/-- Neither change has a placeholder in it. -/
theorem updates_sampleSiblings (setting : Setting) : setting.updates sampleSiblings =
    sampleSiblings.map fun change => (change.path, change.value) := by
  have hone : Template.text setting.chain "1" = "1" := Template.text_of_not_mem _ (by decide)
  have htwo : Template.text setting.chain "2" = "2" := Template.text_of_not_mem _ (by decide)
  simp only [Setting.updates, sampleSiblings, List.map_cons, hone, htwo, List.map_nil]

/-- The file is made in the working directory. -/
theorem applyFile_sampleSiblings :
    (applyFile {} "a.json" .json sampleSiblings { world := {} }).2 = .ok true := by
  have hname : FileName.IsPart "a.json" := by decide
  have hset : (Document.empty .json).setAll (Setting.updates {} sampleSiblings) =
      .ok (.json [("a", .object [("b", .string "1"), ("c", .string "2")])], true) := by
    rw [updates_sampleSiblings]
    rfl
  obtain ⟨q, place, hrun, -⟩ := applyFile_of_absent (p := { world := {} }) rfl hname rfl rfl hset
    rfl
  rw [hrun]

/-- A text that stands in the way of both changes gives way to a mapping, whichever of them comes
first, and the keys of that come in the order of the changes. A file that is not there is made. -/
theorem applyFile_independent_sampleSiblings :
    (∃ last report, (Document.json [("a", .string "x")]).setEach
        (sampleSiblings.reverse.map fun change => (change.path, change.value)) =
          .ok (last, report) ∧
      (Document.json [("a", .object [("b", .string "1"), ("c", .string "2")])]).Reordered last ∧
      (sampleSiblings.map fun change => (change.path, true)).Perm report) ∧
    (applyFile {} "a.json" .json sampleSiblings.reverse { world := {} }).2 = .ok true := by
  have hapart : sampleSiblings.Pairwise fun change other =>
      change.path.Independent .json other.path := by
    simp [sampleSiblings, KeyPath.Independent, KeyPath.Meets]
  have hperm : sampleSiblings.Perm sampleSiblings.reverse := (List.reverse_perm _).symm
  constructor
  · refine applyFile_independent.1 (.json [("a", .string "x")]) _
      (sampleSiblings.map fun change => (change.path, change.value)) _ _ (hperm.map _) ?_ rfl
    rw [List.pairwise_map]
    exact hapart
  · rw [← applyFile_sampleSiblings]
    refine applyFile_independent.2 {} _ _ _ _ _ hperm hapart ?_
    rw [applyFile_sampleSiblings]
    intro crash h
    cases h

end ChangeSet

end ConfigGraft
