import ConfigGraft.Proofs.ChangeSet.File
import ConfigGraft.Proofs.Document.Conflict
import ConfigGraft.Proofs.Document.ReadBack

/-!
# Loading what was written

Changes to a file write the text of a document, and nothing looks whether that text is one of the
format. It is not always: an object whose first key is `$serde_json::private::Number` is written
like any other, and read as a number. So a run can end in success and leave a file that no later run
can load.

What holds is that nothing else stands in the way of loading: the file is found, its bytes are those
of the text, and it is loaded exactly if the text can be read. For an ordinary document it can, if
the document is within the bounds of the reader. Tables of properties can always be read.

## Main results

* `load_applyFile` — **what was written is loaded as what its text is read as,** and where the
  document is legible, the last change is found in it;
* `load_applyFile_reserved` — a file that was written and cannot be loaded.
-/

namespace ConfigGraft.ChangeSet

/-- **What was written is loaded as what its text is read as.** It is the text of a document in
which the last change is found, and all properties are loaded as they were written.

In the other formats the changes start from the document in the file, or from the empty one if there
is no file. It is ordinary in the second case, and in JSON in both. Where it is ordinary, what the
changes make of it is loaded again, in TOML with its leaves first, as long as it is within the
bounds of the reader (`Document.Legible`): in JSON not more than 127 levels and no marked object, in
TOML less than 80 levels and no marked table, in YAML not more than 128 levels and no first key that
looks like a comment. Every path then finds the text that it found before the document was written,
and the path of the last change finds the text of that. -/
theorem load_applyFile {s : Setting} {path : String} {format : Format} {changes : List Change}
    {p q : Progress} (hrun : applyFile s path format changes p = (q, .ok true))
    (hspares : q.world.Spares path) :
    ∃ before after text, Document.load format p.world.disk path = .ok before ∧
      before.setAll (s.updates changes) = .ok (after, true) ∧ after.render? = some text ∧
      (∀ last ∈ changes.getLast?,
        after.get? last.path = some (Template.text s.chain last.value)) ∧
      (∀ document, Document.load format q.world.disk path = .ok document ↔
        Document.parse format text = .ok document) ∧
      (format = .properties → Document.load format q.world.disk path = .ok after) ∧
      (p.world.disk.has path = false ∨ format = .properties ∨ format = .json →
        before.Ordinary) ∧
      (before.Ordinary → after.Legible →
        Document.load format q.world.disk path = .ok after.settled ∧ after.settled.Ordinary ∧
          (∀ other : KeyPath, after.settled.get? other = after.get? other) ∧
          ∀ last ∈ changes.getLast?,
            after.settled.get? last.path = some (Template.text s.chain last.value)) := by
  obtain ⟨before, after, text, place, hload, hset, rfl, htext, hstored⟩ :=
    (applyFile_step hrun).stored hspares
  have hloaded (document : Document) : Document.load after.format q.world.disk path = .ok document ↔
      Document.parse after.format text = .ok document := hstored.load_eq_ok htext
  have hlast : ∀ last ∈ changes.getLast?,
      after.get? last.path = some (Template.text s.chain last.value) := by
    intro last hlast
    obtain ⟨front, rfl⟩ := List.getLast?_eq_some_iff.1 hlast
    rw [Setting.updates, List.map_append] at hset
    exact Document.get?_setAll_last hset
  refine ⟨before, after, text, hload, hset, htext, hlast, hloaded, fun hformat => ?_,
    fun h => Document.ordinary_load h hload, fun hbefore hlegible => ?_⟩
  · exact (hloaded after).2 (Document.readsBack_of_format hformat text htext)
  · have hordinary := Document.ordinary_setAll hbefore hset
    obtain ⟨text', htext', hparse⟩ := Document.exists_parse_render hordinary hlegible
    obtain rfl : text = text' := Option.some.inj (htext.symm.trans htext')
    refine ⟨(hloaded _).2 hparse, Document.ordinary_settled hordinary,
      Document.get?_settled hordinary, fun last hmem => ?_⟩
    rw [Document.get?_settled hordinary]
    exact hlast last hmem

/-- Changes that leave a string behind a table. -/
def tableChanges : List Change :=
  [⟨⟨["server", "host"], by simp, by simp, by simp⟩, "h"⟩,
    ⟨⟨["label"], by simp, by simp, by simp⟩, "t"⟩]

/-- What the changes make of the empty TOML document. -/
def tableResult : Toml.Table :=
  [("server", .table [("host", .string "h")]), ("label", .string "t")]

/-- The string comes behind the table, in the order of the changes. -/
theorem setAll_tableChanges :
    (Document.empty .toml).setAll (Setting.updates {} tableChanges) =
      .ok (.toml tableResult, true) := by
  have hhost : Template.text (fun _ => none) "h" = "h" := Template.text_of_not_mem _ (by decide)
  have hlabel : Template.text (fun _ => none) "t" = "t" := Template.text_of_not_mem _ (by decide)
  simp only [Setting.updates, tableChanges, List.map_cons, hhost, hlabel]
  rfl

/-- The changes are made to a new file. -/
theorem applyFile_tableChanges : ∃ q,
    applyFile {} "a.toml" .toml tableChanges { world := {} } = (q, .ok true) ∧
      q.world.journal.sink = .off := by
  have hname : FileName.IsPart "a.toml" := by decide
  obtain ⟨q, place, hrun, hoff, -⟩ := applyFile_of_absent (p := { world := {} }) rfl hname rfl rfl
    setAll_tableChanges rfl
  exact ⟨q, hrun, hoff⟩

/-- A new file of properties is loaded as what the changes have made of the empty table, and a new
TOML file with the string before the table. -/
theorem load_applyFile_sampleChanges :
    (∃ q, applyFile {} "a.properties" .properties sampleChanges { world := {} } = (q, .ok true) ∧
      ∃ after, Document.load .properties q.world.disk "a.properties" = .ok after) ∧
    ∃ q, applyFile {} "a.toml" .toml tableChanges { world := {} } = (q, .ok true) ∧
      Document.load .toml q.world.disk "a.toml" =
        .ok (.toml [("label", .string "t"), ("server", .table [("host", .string "h")])]) := by
  constructor
  · obtain ⟨q, hrun, hoff⟩ := applyFile_sampleChanges
    obtain ⟨_, after, _, -, -, -, -, -, hback, -, -⟩ :=
      load_applyFile hrun (World.spares_of_off hoff _)
    exact ⟨q, hrun, after, hback rfl⟩
  · obtain ⟨q, hrun, hoff⟩ := applyFile_tableChanges
    obtain ⟨before, after, _, hload, hset, -, -, -, -, hordinary, hlegible⟩ :=
      load_applyFile hrun (World.spares_of_off hoff _)
    have habsent : ({} : Disk).has "a.toml" = false :=
      Disk.has_part_eq_false rfl (by decide : FileName.IsPart "a.toml") rfl
    rw [Document.load, habsent, if_neg Bool.false_ne_true] at hload
    cases hload
    cases setAll_tableChanges.symm.trans hset
    have hunmarked : Toml.Unmarked (Toml.leavesFirst tableResult) :=
      .leaf (.branch (by decide) (.leaf .nil) .nil)
    exact ⟨q, hrun, (hlegible (hordinary (.inl habsent)) ⟨hunmarked, by decide⟩).1⟩

/-! ### A file that cannot be loaded -/

/-- A change at a key that the format has reserved. -/
def reservedChange : Change :=
  ⟨⟨["$serde_json::private::Number"], by simp, by simp, by simp⟩, "x"⟩

/-- What the change makes of the empty document. -/
def reservedDocument : Document := .json [("$serde_json::private::Number", .string "x")]

/-- The text of the document is read as no document. -/
theorem parse_reservedDocument {text : String} (htext : reservedDocument.render? = some text)
    (document : Document) : Document.parse .json text ≠ .ok document := by
  have hnone : (Document.parse .json (String.ofList
      (Json.render [("$serde_json::private::Number", .string "x")]))).toOption.isNone = true := by
    decide +kernel
  obtain rfl := Option.some.inj htext
  intro hparse
  rw [hparse] at hnone
  cases hnone

/-- A file that was written and cannot be loaded. -/
theorem load_applyFile_reserved : ∃ q,
    applyFile {} "a.json" .json [reservedChange] { world := {} } = (q, .ok true) ∧
      ∃ fault, Document.load .json q.world.disk "a.json" = .error fault := by
  have hset : (Document.empty .json).setAll (Setting.updates {} [reservedChange]) =
      .ok (reservedDocument, true) := by
    have htext : Template.text (fun _ => none) "x" = "x" :=
      Template.text_of_not_mem _ (by decide)
    simp only [Setting.updates, List.map_cons, reservedChange, htext]
    rfl
  have hname : FileName.IsPart "a.json" := by decide
  have htext : reservedDocument.render? = some _ := rfl
  obtain ⟨q, place, hrun, -, hstored⟩ := applyFile_of_absent (p := { world := {} }) rfl hname rfl
    rfl hset htext
  refine ⟨q, hrun, ?_⟩
  rcases hload : Document.load .json q.world.disk "a.json" with fault | document
  · exact ⟨fault, rfl⟩
  · have hparse := (hstored.load_eq_ok htext).1 hload
    exact absurd hparse (parse_reservedDocument htext document)

end ConfigGraft.ChangeSet
