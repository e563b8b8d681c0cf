import ConfigGraft.Proofs.Document.Tree
import ConfigGraft.Proofs.Nested.PointUpdate

/-!
# Setting a text in a document

In a document of any nested format, setting a text is an update at one point of its tree.

## Main results

* `Document.pointUpdate_set` — **setting a text updates a document at one point.**
-/

namespace ConfigGraft.Document

/-- What it means for a document of a nested format to be updated at one point. -/
def PointUpdate (path : KeyPath) (text : String) (changed : Bool) : Document → Document → Prop
  | .yaml es, .yaml es' => Nested.PointUpdate path.segments text changed es es'
  | .json es, .json es' => Nested.PointUpdate path.segments text changed es es'
  | .toml es, .toml es' => Nested.PointUpdate path.segments text changed es es'
  | _, _ => False

/-- **Setting a text updates a document at one point.** The text is found at the path, and setting
it says whether that is new. What paths apart from it find stays as it is, of whatever kind. The way
to it leads through mappings, and those that were there keep their keys in order, with one new key
at most, which comes last. -/
theorem pointUpdate_set {document next : Document} {path : KeyPath} {text : String}
    {changed : Bool} (hformat : document.format ≠ .properties)
    (h : document.set path text = .ok (next, changed)) :
    PointUpdate path text changed document next := by
  cases document with
  | yaml es =>
      obtain ⟨fs, hset, rfl⟩ := spells_yaml.set_eq_ok_iff.1 h
      exact Nested.pointUpdate_of_set path.segments_ne_nil hset
  | json es =>
      obtain ⟨fs, hset, rfl⟩ := spells_json.set_eq_ok_iff.1 h
      exact Nested.pointUpdate_of_set path.segments_ne_nil hset
  | toml es =>
      obtain ⟨fs, hset, rfl⟩ := spells_toml.set_eq_ok_iff.1 h
      exact Nested.pointUpdate_of_set path.segments_ne_nil hset
  | properties table => exact absurd rfl hformat

/-- A document with keys that are no texts, and a list in the way of an update. -/
def sampleMixed : Document :=
  .yaml [(.bool true, .null), (.string "a", .mapping [(.null, .bool false),
    (.string "x", .sequence [.string "0"])]), (.string "b", .string "1")]

/-- What setting a text below the list makes of it. -/
def sampleMixedSet : Document :=
  .yaml [(.bool true, .null), (.string "a", .mapping [(.null, .bool false),
    (.string "x", .mapping [(.string "y", .string "2")])]), (.string "b", .string "1")]

/-- The list gives way, and everything else stays at its place. -/
theorem pointUpdate_set_sampleMixed :
    sampleMixed.format ≠ .properties ∧
      sampleMixed.set ⟨["a", "x", "y"], by simp, by simp, by simp⟩ "2" =
        .ok (sampleMixedSet, true) ∧
      PointUpdate ⟨["a", "x", "y"], by simp, by simp, by simp⟩ "2" true sampleMixed
        sampleMixedSet := by
  have hformat : sampleMixed.format ≠ .properties := nofun
  have hset : sampleMixed.set ⟨["a", "x", "y"], by simp, by simp, by simp⟩ "2" =
      .ok (sampleMixedSet, true) := rfl
  exact ⟨hformat, hset, pointUpdate_set hformat hset⟩

end ConfigGraft.Document
