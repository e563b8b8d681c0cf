import ConfigGraft.Proofs.Document.Unchanged
import ConfigGraft.Proofs.Nested.Difference

/-!
# Updates that say they made no difference

Setting a text says whether it was another one before. Where it was not, every path finds the text
that it found before, and so the next update is judged as it would have been at first. The document
itself is left as it is, in its values, tags and the order of its keys, unless the text stood under
a tag in YAML. Then the tag is lost, and nothing is said about that.

## Main results

* `Document.get?_of_unchanged` — an update without a difference leaves all texts that are found;
* `Document.setAll_eq_false_iff` — **updates make no difference if all their texts stand there from
  the start;**
* `Document.set_unchanged_iff` — **an update is honest about the whole document,** but for a text
  under a tag;
* `Document.set_sampleTaggedText` — a tag that is lost without a word.
-/

namespace ConfigGraft

/-! ### What values show -/

instance : Nested.Faithful String Json.Value where
  entries?_of_text? {v _} h := by cases v <;> first | rfl | cases h
  eq_ofEntries {v _} _ h := by cases v <;> cases h; rfl
  eq_ofText {v _} _ h := by cases v <;> cases h; rfl
  isSealed_ofText _ := rfl

instance : Nested.Faithful String Toml.Value where
  entries?_of_text? {v _} h := by cases v <;> first | rfl | cases h
  eq_ofEntries {v _} _ h := by cases v <;> cases h; rfl
  eq_ofText {v _} _ h := by cases v <;> cases h; rfl
  isSealed_ofText _ := rfl

/-- In YAML a value shows the text that is under its tags. -/
theorem Yaml.Value.text?_eq_some_iff {v : Yaml.Value} {text : String} :
    Nested.text? v = some text ↔ v.untagged = .string text := by
  simp only [Nested.text?]
  cases v.untagged <;> simp

instance : Nested.Faithful Yaml.Value Yaml.Value where
  entries?_of_text? {v _} h := by simp only [Nested.entries?, Yaml.Value.text?_eq_some_iff.1 h]
  eq_ofEntries {v _} hopen h := by
    cases v with
    | tagged => cases hopen
    | mapping => cases h; rfl
    | _ => cases h
  eq_ofText {v _} hopen h := by
    cases v with
    | tagged => cases hopen
    | string => cases h; rfl
    | _ => cases h
  isSealed_ofText _ := rfl

namespace Document

/-- A document is a tree whose values are what they show where they are open to changes, or a table
of properties. -/
@[elab_as_elim]
theorem cases_faithful {motive : Document → Prop} (document : Document)
    (tree : ∀ {κ ν : Type} [Nested κ ν] [Nested.Lawful κ ν] [Nested.Faithful κ ν]
      {make : List (κ × ν) → Document}, Spells make → ∀ es, motive (make es))
    (table : ∀ t, motive (.properties t)) : motive document := by
  cases document with
  | yaml es => exact tree spells_yaml es
  | json es => exact tree spells_json es
  | toml es => exact tree spells_toml es
  | properties t => exact table t

/-! ### One update -/

section

variable {document next : Document} {path : KeyPath} {text : String} {changed : Bool}

/-- An update says that it made a difference exactly if its text is not found at its path. -/
theorem changed_iff (h : document.set path text = .ok (next, changed)) :
    changed = true ↔ document.get? path ≠ some text := by
  cases document using cases_tree with
  | @tree κ ν _ _ make hspells es =>
      obtain ⟨fs, hset, rfl⟩ := hspells.set_eq_ok_iff.1 h
      rw [hspells.get?_eq]
      exact Nested.changed_of_set path.segments_ne_nil hset
  | table t =>
      cases h
      exact bne_iff_ne

/-- **An update without a difference leaves all texts that are found.** -/
theorem get?_of_unchanged (h : document.set path text = .ok (next, false)) (other : KeyPath) :
    next.get? other = document.get? other := by
  have hfound : document.get? path = some text :=
    Decidable.not_not.1 fun hne => Bool.false_ne_true ((changed_iff h).2 hne)
  cases document using cases_faithful with
  | @tree κ ν _ _ _ make hspells es =>
      rw [get?_set (hspells.format_ne es) h]
      split
      · rename_i heq
        rw [← heq, hfound]
      · rename_i hne
        split
        · -- Where the text is found, no path before it or behind it finds one.
          rename_i hmeets
          rw [hspells.get?_eq] at hfound ⊢
          cases hother : Nested.get? other.segments es with
          | none => rfl
          | some text' =>
              rcases hmeets with hleads | hleads
              · exact absurd (KeyPath.ext (Nested.eq_of_get?_of_prefix hfound hother hleads)) hne
              · exact absurd
                  (KeyPath.ext (Nested.eq_of_get?_of_prefix hother hfound hleads)).symm hne
        · rfl
  | table t =>
      rw [set] at h
      obtain ⟨rfl, -⟩ := Prod.mk.inj (Except.ok.inj h)
      refine (Properties.value?_insert ..).trans ?_
      split
      · rename_i heq
        rw [get?, heq]
        exact hfound.symm
      · rfl

end

/-! ### Lists of updates -/

/-- **Updates make no difference exactly if all their texts stand in the document from the
start.** -/
theorem setAll_eq_false_iff {document last : Document} {updates : List (KeyPath × String)}
    {dirty : Bool} (h : document.setAll updates = .ok (last, dirty)) :
    dirty = false ↔ ∀ update ∈ updates, document.get? update.1 = some update.2 := by
  induction updates generalizing document dirty with
  | nil =>
      cases h
      exact iff_of_true rfl (List.forall_mem_nil _)
  | cons update rest ih =>
      obtain ⟨next, changed, more, hset, hrest, rfl⟩ := setAll_cons_eq_ok.1 h
      rw [Bool.or_eq_false_iff, ih hrest, List.forall_mem_cons, ← Bool.not_eq_true,
        changed_iff hset, Decidable.not_not]
      refine and_congr_right fun hfound => ?_
      obtain rfl : changed = false :=
        eq_false_of_ne_true fun hchanged => (changed_iff hset).1 hchanged hfound
      simp only [get?_of_unchanged hset]

/-! ### Whole documents -/

/-- Whether a text stands under a tag at a place in a document. Only YAML has tags. -/
def TaggedTextAt (place : KeyPath) (text : String) : Document → Prop
  | .yaml es => ∃ tag value,
      Nested.value? place.segments es = some (.tagged tag value) ∧ value.untagged = .string text
  | _ => False

/-- In YAML a value that shows a text is closed to changes exactly if the text is under a tag. -/
theorem isSealed_iff {place : KeyPath} {text : String} {es : Yaml.Mapping}
    (h : Nested.get? place.segments es = some text) :
    (∀ v, Nested.value? place.segments es = some v → Nested.isSealed v = false) ↔
      ¬ (Document.yaml es).TaggedTextAt place text := by
  rw [Nested.get?_eq] at h
  obtain ⟨v, hvalue, hshows⟩ := Option.bind_eq_some_iff.1 h
  rw [TaggedTextAt, hvalue]
  cases v with
  | tagged tag value =>
      refine iff_of_false (fun hopen => ?_) (not_not_intro ⟨tag, value, rfl, ?_⟩)
      · cases hopen _ rfl
      · exact Yaml.Value.text?_eq_some_iff.1 hshows
  | _ =>
      refine iff_of_true ?_ ?_
      · rintro v ⟨⟩
        rfl
      · rintro ⟨tag, value, ⟨⟩, -⟩

/-- **An update leaves a document as it is** exactly if it says that it made no difference and the
text did not stand under a tag. -/
theorem set_eq_self_iff {document next : Document} {path : KeyPath} {text : String} {changed : Bool}
    (h : document.set path text = .ok (next, changed)) :
    next = document ↔ changed = false ∧ ¬ document.TaggedTextAt path text := by
  cases document with
  | yaml es =>
      obtain ⟨fs, hset, rfl⟩ := spells_yaml.set_eq_ok_iff.1 h
      rw [yaml.injEq, Nested.set_eq_self_iff path.segments_ne_nil hset]
      refine and_congr_right fun hchanged => isSealed_iff (Decidable.not_not.1 fun hne => ?_)
      rw [(Nested.changed_of_set path.segments_ne_nil hset).2 hne] at hchanged
      cases hchanged
  | json es =>
      obtain ⟨fs, hset, rfl⟩ := spells_json.set_eq_ok_iff.1 h
      rw [json.injEq, Nested.set_eq_self_iff path.segments_ne_nil hset]
      exact and_congr_right fun _ => iff_of_true (fun _ _ => rfl) id
  | toml es =>
      obtain ⟨fs, hset, rfl⟩ := spells_toml.set_eq_ok_iff.1 h
      rw [toml.injEq, Nested.set_eq_self_iff path.segments_ne_nil hset]
      exact and_congr_right fun _ => iff_of_true (fun _ _ => rfl) id
  | properties table =>
      refine ⟨fun heq => ⟨eq_false_of_ne_true fun hchanged => ?_, id⟩, fun hchanged => ?_⟩
      · exact (changed_iff h).1 hchanged (heq ▸ get?_set_self h)
      · have huntagged : (properties table).Untagged := trivial
        exact (untagged_set huntagged h).2 hchanged.1

/-- **An update is honest about the whole document.** It says that it made no difference exactly if
the document is what it was, in all values and tags and in the order of keys everywhere, unless the
text stands at the path under a tag. In that case it says so too, but the document is another one:
the tag is gone, although every path finds the text that it found before. -/
theorem set_unchanged_iff {document next : Document} {path : KeyPath} {text : String}
    {changed : Bool} (h : document.set path text = .ok (next, changed)) :
    (¬ document.TaggedTextAt path text → (changed = false ↔ next = document)) ∧
      (document.TaggedTextAt path text → changed = false ∧ next ≠ document ∧
        ∀ other, next.get? other = document.get? other) := by
  constructor
  · intro huntagged
    rw [set_eq_self_iff h, and_iff_left huntagged]
  · intro htagged
    have hfound : document.get? path = some text := by
      cases document with
      | yaml es =>
          obtain ⟨tag, value, hvalue, hshows⟩ := htagged
          rw [get?, Nested.get?_eq, hvalue]
          exact Yaml.Value.text?_eq_some_iff.2 hshows
      | json | toml | properties => cases htagged
    obtain rfl : changed = false :=
      eq_false_of_ne_true fun hchanged => (changed_iff h).1 hchanged hfound
    exact ⟨rfl, fun heq => ((set_eq_self_iff h).1 heq).2 htagged, get?_of_unchanged h⟩

/-! ### A text under a tag -/

/-- A document with a text under a tag, and another text. -/
def sampleTaggedText : Document :=
  .yaml [(.string "host", .tagged "t" (.string "x")), (.string "port", .string "y")]

/-- The document without the tag. -/
def sampleBareText : Document :=
  .yaml [(.string "host", .string "x"), (.string "port", .string "y")]

/-- Setting the text under the tag again takes the tag away and no text. -/
theorem set_unchanged_iff_sampleTaggedText :
    sampleTaggedText.set ⟨["host"], by simp, by simp, by simp⟩ "x" = .ok (sampleBareText, false) ∧
      sampleTaggedText.TaggedTextAt ⟨["host"], by simp, by simp, by simp⟩ "x" ∧
      sampleBareText ≠ sampleTaggedText ∧
      ∀ other, sampleBareText.get? other = sampleTaggedText.get? other := by
  have hset : sampleTaggedText.set ⟨["host"], by simp, by simp, by simp⟩ "x" =
      .ok (sampleBareText, false) := rfl
  have htagged : sampleTaggedText.TaggedTextAt ⟨["host"], by simp, by simp, by simp⟩ "x" :=
    ⟨"t", .string "x", rfl, rfl⟩
  exact ⟨hset, htagged, ((set_unchanged_iff hset).2 htagged).2⟩

/-- The text of the document with the tag. -/
def sampleTaggedSource : String := "host: !t x\nport: y\n"

/-- The tag is read with the text that stands under it. -/
theorem parse_sampleTaggedSource : parse .yaml sampleTaggedSource = .ok sampleTaggedText := by
  have htokens : Yaml.Token.readAll? sampleTaggedSource.toList = some [.openBlockMapping, .key,
      .scalar true "host".toList, .value, .tag ⟨['!'], ['t'.toUInt8]⟩, .scalar true ['x'], .key,
      .scalar true "port".toList, .value, .scalar true ['y'], .closeBlock] := by
    decide
  have hblank : isBlankYaml sampleTaggedSource.toList = false := by decide
  have hread : Yaml.Value.read? sampleTaggedSource = some (.mapping
      [(.string "host", .tagged "t" (.string "x")), (.string "port", .string "y")]) :=
    Yaml.Value.read?_of_tokens htokens
  rw [parse, parseYaml, hread, hblank]
  rfl

/-- An update of a document that was read says that it made no difference, and yet the document is
another one afterwards. -/
theorem set_sampleTaggedText :
    parse .yaml sampleTaggedSource = .ok sampleTaggedText ∧
      sampleTaggedText.set ⟨["host"], by simp, by simp, by simp⟩ "x" = .ok (sampleBareText, false) ∧
      sampleBareText ≠ sampleTaggedText := by
  refine ⟨parse_sampleTaggedSource, rfl, ?_⟩
  rintro ⟨⟩

end Document

end ConfigGraft
