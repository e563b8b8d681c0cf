import ConfigGraft.Proofs.ChangeSet.File
import ConfigGraft.Proofs.Document.Difference
import ConfigGraft.Proofs.Document.Sealed

/-!
# Files that are left untouched

A file is written only if a change made a difference to its document. Each change is compared with
the document as those before it left it, but while none of them makes a difference all texts stay
where they are. So whether the file is written can be seen from the document that it holds: it is
not written exactly if the text of every change stands in it already. Then no byte on the disk is
touched, and a file that was not there is not made.

## Main results

* `untouched_of_kept` — a file that is not written leaves the disk as it is;
* `applyFile_untouched_iff` — **when a file is left untouched.**
-/

namespace ConfigGraft.ChangeSet

variable {s : Setting} {path : String} {format : Format} {changes : List Change} {p q : Progress}

/-- A world is **untouched** if its disk is what it was, but for the file of the journal. -/
def Untouched (w v : World) : Prop :=
  (∀ place, w.journal.sink ≠ .file place → v.disk.node? place = w.disk.node? place) ∧
    ((∀ place, w.journal.sink ≠ .file place) → v.disk = w.disk)

/-- Records leave all files as they are, but for that of the journal. -/
theorem untouched_of_logged {w v : World} (h : w.Logged v) : Untouched w v :=
  ⟨fun _ hsink => h.node?_eq hsink, h.disk_eq⟩

/-- A file that is not written leaves the disk as it is. -/
theorem untouched_of_kept (h : applyFile s path format changes p = (q, .ok false)) :
    Untouched p.world q.world := by
  cases applyFile_step h with
  | kept _ _ hlogged => exact untouched_of_logged hlogged

/-- A file is left as it is exactly if its changes can be made and make no difference. -/
theorem exists_kept_iff {before : Document}
    (hload : Document.load format p.world.disk path = .ok before) :
    (∃ q, applyFile s path format changes p = (q, .ok false)) ↔
      ∃ after, before.setAll (s.updates changes) = .ok (after, false) := by
  constructor
  · rintro ⟨q, hrun⟩
    cases applyFile_step hrun with
    | kept hload' hset _ =>
        cases hload.symm.trans hload'
        exact ⟨_, hset⟩
  · rintro ⟨after, hset⟩
    obtain ⟨q, hrun, -⟩ := applyFile_of_kept hload hset
    exact ⟨q, hrun⟩

/-- **A file is left untouched exactly if the text of every change stands in it already.** Where no
change leads through a mapping under a tag, changes are made to a file without writing it exactly if
the document that it holds, or the empty one if it is not there, shows at the path of each change
the text that the change expands to. The disk is left exactly as it was then, so the file keeps
every byte, and is not made if it was not there. -/
theorem applyFile_untouched_iff {before : Document}
    (hload : Document.load format p.world.disk path = .ok before)
    (hopen : ∀ change ∈ changes, ∀ place : KeyPath, place.segments <+: change.path.segments →
      place ≠ change.path → ¬ before.TaggedMappingAt place) :
    ((∃ q, applyFile s path format changes p = (q, .ok false)) ↔
      ∀ change ∈ changes, before.get? change.path = some (Template.text s.chain change.value)) ∧
    ∀ q, applyFile s path format changes p = (q, .ok false) → Untouched p.world q.world := by
  refine ⟨?_, fun q => untouched_of_kept⟩
  have hset : before.setAll (s.updates changes) ≠ .error .mk := by
    rw [ne_eq, Document.setAll_eq_error_iff]
    rintro ⟨front, update, back, heq, place, hleads, hne, htagged, -⟩
    have hmem : update ∈ s.updates changes := heq ▸ List.mem_append_right _ List.mem_cons_self
    obtain ⟨change, hchange, rfl⟩ := List.mem_map.1 hmem
    exact hopen change hchange place hleads hne htagged
  rw [exists_kept_iff hload]
  rcases hafter : before.setAll (s.updates changes) with ⟨⟩ | ⟨after, dirty⟩
  · exact absurd hafter hset
  · have hupdates : dirty = false ↔ ∀ change ∈ changes,
        before.get? change.path = some (Template.text s.chain change.value) := by
      rw [Document.setAll_eq_false_iff hafter, Setting.updates, List.forall_mem_map]
    rw [← hupdates]
    constructor
    · rintro ⟨last, ⟨⟩⟩
      rfl
    · rintro rfl
      exact ⟨after, rfl⟩

/-! ### An instance -/

/-- A disk with a YAML file in which a text stands under a tag, and no journal. -/
def taggedWorld : World where
  disk := { nodes := [(["c.yml"], .file Document.sampleTaggedSource.toUTF8)] }

/-- The file is loaded with the tag in it. -/
theorem load_taggedWorld :
    Document.load .yaml taggedWorld.disk "c.yml" = .ok Document.sampleTaggedText := by
  have hplace : taggedWorld.disk.locate "c.yml" = .ok ["c.yml"] :=
    Disk.locate_part rfl (by decide : FileName.IsPart "c.yml")
  have hnode : taggedWorld.disk.node? ["c.yml"] =
      some (.file Document.sampleTaggedSource.toUTF8) := by
    simp [Disk.node?, taggedWorld]
  have hthere : taggedWorld.disk.has "c.yml" = true := Disk.has_iff.2 ⟨_, hplace, by simp [hnode]⟩
  refine (Document.load_eq_ok hthere hplace).2 ⟨_, hnode, ?_⟩
  rw [Document.ofBytes?, Document.fromUTF8?_toUTF8, Option.bind_some,
    Document.parse_sampleTaggedSource]
  · rfl
  · rintro ⟨⟩

/-- Changes for the texts that stand in the file, one of them with a default. -/
def sampleRepeats : List Change :=
  [⟨⟨["host"], by simp, by simp, by simp⟩, "x"⟩,
    ⟨⟨["port"], by simp, by simp, by simp⟩, "${X:y}"⟩]

/-- The file is found with the texts, and is not written. So the tag stays in it. -/
theorem applyFile_untouched_sampleRepeats :
    Document.load .yaml taggedWorld.disk "c.yml" = .ok Document.sampleTaggedText ∧
      ∃ q, applyFile {} "c.yml" .yaml sampleRepeats { world := taggedWorld } = (q, .ok false) ∧
        q.world.disk = taggedWorld.disk := by
  have hplain : Template.text (fun _ => none) "x" = "x" := Template.text_of_not_mem _ (by decide)
  have hdefault : Template.text (fun _ => none) "${X:y}" = "y" := by decide +kernel
  have hfound : ∀ change ∈ sampleRepeats, Document.sampleTaggedText.get? change.path =
      some (Template.text (fun _ => none) change.value) := by
    simp only [sampleRepeats, List.forall_mem_cons, hplain, hdefault]
    exact ⟨rfl, rfl, List.forall_mem_nil _⟩
  have hopen : ∀ change ∈ sampleRepeats, ∀ place : KeyPath,
      place.segments <+: change.path.segments → place ≠ change.path →
      ¬ Document.sampleTaggedText.TaggedMappingAt place := by
    -- The paths have one segment each, so no other path leads to them.
    have hsingle (key : String) (place path : KeyPath) (hpath : path.segments = [key])
        (hleads : place.segments <+: path.segments) : place = path := by
      rw [hpath] at hleads
      rcases List.prefix_cons_iff.1 hleads with hnil | ⟨back, hplace, hback⟩
      · exact absurd hnil place.segments_ne_nil
      · rw [List.prefix_nil.1 hback] at hplace
        exact KeyPath.ext (hplace.trans hpath.symm)
    simp only [sampleRepeats, List.forall_mem_cons]
    refine ⟨?_, ?_, List.forall_mem_nil _⟩ <;>
      exact fun place hleads hne => absurd (hsingle _ place _ rfl hleads) hne
  obtain ⟨hkept, huntouched⟩ := applyFile_untouched_iff (s := {}) (p := { world := taggedWorld })
    load_taggedWorld hopen
  obtain ⟨q, hrun⟩ := hkept.2 hfound
  exact ⟨load_taggedWorld, q, hrun, (huntouched q hrun).2 (by rintro _ ⟨⟩)⟩

end ConfigGraft.ChangeSet
