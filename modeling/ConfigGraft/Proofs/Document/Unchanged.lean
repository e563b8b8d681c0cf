import ConfigGraft.Proofs.Document.Updates
import ConfigGraft.Proofs.Nested

/-!
# Updates that make no difference

A document is written only if an update made a difference, so updates that made none had better
leave the document as it is. They do unless a tag stands in a YAML document: a text under a tag
counts as the text, and setting it takes the tag away.

## Main results

* `Document.setAll_unchanged` — **updates without a difference leave a document as it is;**
* `Document.untagged_setAll` — updates bring no tags.
-/

namespace ConfigGraft

/-! ### Plain values -/

/-- All JSON values hold nothing but what they show. -/
def Json.plain : Nested.Plain String Json.Value where
  key _ := True
  value _ := True
  key_segment _ := trivial
  value_ofText _ := trivial
  value_ofEntries _ := by simp
  eq_ofEntries {v _} _ h := by cases v <;> cases h; rfl
  eq_ofText {v _} _ h := by cases v <;> cases h; rfl

/-- All TOML values hold nothing but what they show. -/
def Toml.plain : Nested.Plain String Toml.Value where
  key _ := True
  value _ := True
  key_segment _ := trivial
  value_ofText _ := trivial
  value_ofEntries _ := by simp
  eq_ofEntries {v _} _ h := by cases v <;> cases h; rfl
  eq_ofText {v _} _ h := by cases v <;> cases h; rfl

/-- Entries are free of tags if every key and every value is. -/
theorem Yaml.Value.anyTagIn_eq_false {es : Yaml.Mapping} :
    anyTagIn es = false ↔ ∀ e ∈ es, e.1.hasTag = false ∧ e.2.hasTag = false := by
  induction es with
  | nil => simp [anyTagIn]
  | cons e rest ih => simp [anyTagIn, ih, and_assoc]

/-- YAML values hold nothing but what they show where no tag is in them. -/
def Yaml.plain : Nested.Plain Yaml.Value Yaml.Value where
  key k := k.hasTag = false
  value v := v.hasTag = false
  key_segment _ := rfl
  value_ofText _ := rfl
  value_ofEntries _ := Yaml.Value.anyTagIn_eq_false
  eq_ofEntries {v _} hplain h := by
    cases v with
    | tagged => cases hplain
    | mapping => cases h; rfl
    | _ => cases h
  eq_ofText {v _} hplain h := by
    cases v with
    | tagged => cases hplain
    | string => cases h; rfl
    | _ => cases h

namespace Document

/-- Whether no tag stands anywhere in a document. Only YAML has tags. -/
def Untagged : Document → Prop
  | .yaml entries => Yaml.Value.anyTagIn entries = false
  | _ => True

/-! ### Setting -/

/-- What comes of setting a text in a tree, for the trees of all nested formats. -/
theorem nested_set {κ ν : Type} [Nested κ ν] (plain : Nested.Plain κ ν) {es : List (κ × ν)}
    {make : List (κ × ν) → Document} {path : List String} {text : String} {next : Document}
    {changed : Bool} (hes : plain.All es)
    (h : (Nested.set text path es).map (fun (es, changed) => (make es, changed)) =
      .ok (next, changed)) :
    ∃ es', next = make es' ∧ plain.All es' ∧ (changed = false → es' = es) := by
  obtain ⟨⟨es', changed'⟩, hset, heq⟩ := map_eq_ok.1 h
  cases heq
  refine ⟨es', rfl, (Nested.kept_all plain).set hes hset, ?_⟩
  rintro rfl
  exact Nested.set_unchanged plain hes hset

/-- Setting a text brings no tags, and changes the document only where it made a difference. -/
theorem untagged_set {path : KeyPath} {text : String} {document next : Document} {changed : Bool}
    (huntagged : document.Untagged) (h : document.set path text = .ok (next, changed)) :
    next.Untagged ∧ (changed = false → next = document) := by
  cases document with
  | properties table =>
      cases h
      refine ⟨trivial, fun hsame => congrArg Document.properties (Properties.value?_ext ?_)⟩
      intro key
      rw [Properties.value?_insert]
      split
      · rename_i heq
        rw [heq, bne_eq_false_iff_eq.1 hsame]
      · rfl
  | json es =>
      obtain ⟨es', rfl, -, hsame⟩ := nested_set Json.plain (fun _ _ => ⟨trivial, trivial⟩) h
      exact ⟨trivial, fun hchanged => by rw [hsame hchanged]⟩
  | toml es =>
      obtain ⟨es', rfl, -, hsame⟩ := nested_set Toml.plain (fun _ _ => ⟨trivial, trivial⟩) h
      exact ⟨trivial, fun hchanged => by rw [hsame hchanged]⟩
  | yaml es =>
      obtain ⟨es', rfl, hall, hsame⟩ := nested_set Yaml.plain
        (Yaml.Value.anyTagIn_eq_false.1 huntagged) h
      exact ⟨Yaml.Value.anyTagIn_eq_false.2 hall, fun hchanged => by rw [hsame hchanged]⟩

/-- Updates bring no tags. -/
theorem untagged_setAll {updates : List (KeyPath × String)} {document last : Document}
    {dirty : Bool} (huntagged : document.Untagged)
    (h : document.setAll updates = .ok (last, dirty)) : last.Untagged := by
  induction updates generalizing document dirty with
  | nil =>
      cases h
      exact huntagged
  | cons update rest ih =>
      obtain ⟨next, changed, more, hset, hrest, -⟩ := setAll_cons_eq_ok.1 h
      exact ih (untagged_set huntagged hset).1 hrest

/-- **Updates without a difference leave a document as it is.** -/
theorem setAll_unchanged {updates : List (KeyPath × String)} {document last : Document}
    (huntagged : document.Untagged) (h : document.setAll updates = .ok (last, false)) :
    last = document := by
  induction updates generalizing document with
  | nil =>
      cases h
      rfl
  | cons update rest ih =>
      obtain ⟨next, changed, more, hset, hrest, hdirty⟩ := setAll_cons_eq_ok.1 h
      obtain ⟨rfl, rfl⟩ := Bool.or_eq_false_iff.1 hdirty.symm
      obtain ⟨hnext, hsame⟩ := untagged_set huntagged hset
      rw [ih hnext hrest, hsame rfl]

end Document

end ConfigGraft
