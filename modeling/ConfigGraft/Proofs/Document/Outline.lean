import ConfigGraft.Proofs.Document.Tree
import ConfigGraft.Proofs.Nested.Again
import ConfigGraft.Proofs.Nested.Translation

/-!
# What three formats have in common

YAML, JSON and TOML can all say a tree of mappings with texts, truth values and lists of texts at
its leaves. Such an outline is a tree in a spelling of its own, and each of the formats spells it
with its own values. Changes do the same to all three documents: after each change they spell one
and the same outline, the change has made a difference in all of them or in none, and every path
finds the same text.

## Main results

* `Outline.translation` — an outline is translated into every format with such leaves;
* `Document.trail_outline` — what changes do to an outline, they do to its documents;
* `Document.trail_spelled` — **the three formats behave alike.**
-/

namespace ConfigGraft

/-- A tree of ordered mappings with texts, truth values and lists of texts at its leaves. -/
inductive Outline where
  | text (s : String)
  | truth (b : Bool)
  | texts (items : List String)
  | mapping (entries : List (String × Outline))

namespace Outline

instance : Nested String Outline where
  key s := s
  isKey s k := s == k
  ofEntries := .mapping
  ofText := .text
  entries?
    | .mapping entries => some entries
    | _ => none
  text?
    | .text s => some s
    | _ => none
  isSealed _ := false

end Outline

/-! ### Spelling an outline -/

/-- How a format spells the leaves of an outline that are no texts. They show neither a mapping nor
a text. -/
class Nested.Leaves (κ ν : Type) [Nested κ ν] where
  ofTruth : Bool → ν
  ofTexts : List String → ν
  entries?_ofTruth : ∀ b, entries? (ofTruth b) = none
  text?_ofTruth : ∀ b, text? (ofTruth b) = none
  entries?_ofTexts : ∀ items, entries? (ofTexts items) = none
  text?_ofTexts : ∀ items, text? (ofTexts items) = none

instance : Nested.Leaves String Json.Value where
  ofTruth := .bool
  ofTexts items := .array (items.map .string)
  entries?_ofTruth _ := rfl
  text?_ofTruth _ := rfl
  entries?_ofTexts _ := rfl
  text?_ofTexts _ := rfl

instance : Nested.Leaves Yaml.Value Yaml.Value where
  ofTruth := .bool
  ofTexts items := .sequence (items.map .string)
  entries?_ofTruth _ := rfl
  text?_ofTruth _ := rfl
  entries?_ofTexts _ := rfl
  text?_ofTexts _ := rfl

instance : Nested.Leaves String Toml.Value where
  ofTruth := .bool
  ofTexts items := .array (items.map .string)
  entries?_ofTruth _ := rfl
  text?_ofTruth _ := rfl
  entries?_ofTexts _ := rfl
  text?_ofTexts _ := rfl

namespace Outline

section

variable (κ ν : Type) [Nested κ ν] [Nested.Leaves κ ν]

mutual

/-- An outline in the values of a format. -/
def spell : Outline → ν
  | .text s => Nested.ofText s
  | .truth b => Nested.Leaves.ofTruth κ b
  | .texts items => Nested.Leaves.ofTexts κ items
  | .mapping entries => Nested.ofEntries (spellEntries entries)

/-- The entries of an outline in the keys and values of a format, in their order. -/
def spellEntries : List (String × Outline) → List (κ × ν)
  | [] => []
  | (name, outline) :: rest => (Nested.key ν name, outline.spell) :: spellEntries rest

end

end

variable {κ ν : Type} [Nested κ ν] [Nested.Leaves κ ν]

/-- Entries are spelled one by one. -/
theorem spellEntries_eq_map (es : List (String × Outline)) :
    spellEntries κ ν es = es.map (Prod.map (Nested.key ν) (spell κ ν)) := by
  induction es with
  | nil => rfl
  | cons e rest ih =>
      obtain ⟨name, outline⟩ := e
      rw [spellEntries, ih, List.map_cons, Prod.map_apply]

variable (κ ν) in
/-- **An outline is translated into every lawful format** that has its leaves. -/
def translation [Nested.Lawful κ ν] : Nested.Translation String Outline κ ν where
  key := Nested.key ν
  value := spell κ ν
  key_segment _ := rfl
  isKey_key segment k := by
    have hiff : Nested.isKey ν segment (Nested.key ν k) = true ↔ (segment == k) = true := by
      rw [Nested.Lawful.isKey_iff, beq_iff_eq]
      exact ⟨fun h => (Nested.Lawful.key_injective h).symm, fun h => h ▸ rfl⟩
    exact Bool.eq_iff_iff.2 hiff
  value_ofEntries es := by
    rw [← spellEntries_eq_map, show Nested.ofEntries es = Outline.mapping es from rfl, spell]
  value_ofText s := by
    rw [show Nested.ofText s = Outline.text s from rfl, spell]
  entries?_value outline := by
    cases outline with
    | text s => simp [spell, Nested.entries?]
    | truth b => simp [spell, Nested.entries?, Nested.Leaves.entries?_ofTruth]
    | texts items => simp [spell, Nested.entries?, Nested.Leaves.entries?_ofTexts]
    | mapping es => simp [spell, Nested.entries?, spellEntries_eq_map]
  text?_value outline := by
    cases outline with
    | text s => simp [spell, Nested.text?]
    | truth b => simp [spell, Nested.text?, Nested.Leaves.text?_ofTruth]
    | texts items => simp [spell, Nested.text?, Nested.Leaves.text?_ofTexts]
    | mapping es => simp [spell, Nested.text?]
  isSealed_value outline h := by
    cases outline with
    | mapping es => simp [spell, Nested.isSealed]
    | text s => cases h
    | truth b => cases h
    | texts items => cases h

end Outline

/-! ### Changes step by step -/

/-- The trees or documents that come of setting texts one after the other, each with whether the
text made a difference. -/
def trail {σ : Type} (set : KeyPath → String → σ → Except SealedMapping (σ × Bool)) :
    List (KeyPath × String) → σ → Except SealedMapping (List (σ × Bool))
  | [], _ => .ok []
  | (path, text) :: rest, s =>
    match set path text s with
    | .error crash => .error crash
    | .ok (next, changed) => (trail set rest next).map ((next, changed) :: ·)

/-- Where setting commutes with a map, so do its trails. -/
theorem trail_map {σ τ : Type} {set : KeyPath → String → σ → Except SealedMapping (σ × Bool)}
    {set' : KeyPath → String → τ → Except SealedMapping (τ × Bool)} {f : σ → τ}
    (h : ∀ path text s, set' path text (f s) = (set path text s).map fun (t, c) => (f t, c))
    (updates : List (KeyPath × String)) (s : σ) :
    trail set' updates (f s) =
      (trail set updates s).map (List.map fun (t, c) => (f t, c)) := by
  induction updates generalizing s with
  | nil => rfl
  | cons update rest ih =>
      obtain ⟨path, text⟩ := update
      rw [trail, trail, h]
      rcases set path text s with crash | ⟨next, changed⟩
      · rfl
      · simp only [Except.map, ih]
        cases trail set rest next <;> rfl

namespace Outline

/-- Sets a text at a path of an outline. -/
def setText (path : KeyPath) (text : String) (es : List (String × Outline)) :
    Except SealedMapping (List (String × Outline) × Bool) :=
  Nested.set text path.segments es

/-- Texts can be set in an outline at all paths, one after the other. -/
theorem exists_trail (updates : List (KeyPath × String)) (es : List (String × Outline)) :
    ∃ steps, trail setText updates es = .ok steps := by
  induction updates generalizing es with
  | nil => exact ⟨[], rfl⟩
  | cons update rest ih =>
      obtain ⟨path, text⟩ := update
      -- Nothing in an outline is closed to changes.
      obtain ⟨fs, changed, hset⟩ := Nested.exists_set (fun _ => rfl) text path.segments es
      obtain ⟨steps, hsteps⟩ := ih fs
      refine ⟨(fs, changed) :: steps, ?_⟩
      rw [trail, setText, hset]
      simp only [hsteps]
      rfl

end Outline

namespace Document

variable {κ ν : Type} [Nested κ ν] [Nested.Leaves κ ν] [Nested.Lawful κ ν]
  {make : List (κ × ν) → Document}

/-- The document of an outline is read as the outline. -/
theorem get?_outline (hspells : Spells make) (es : List (String × Outline)) (path : KeyPath) :
    (make (Outline.spellEntries κ ν es)).get? path = Nested.get? path.segments es := by
  rw [hspells.get?_eq, Outline.spellEntries_eq_map]
  exact (Outline.translation κ ν).get?_entries path.segments es

/-- **What changes do to an outline, they do to its documents.** -/
theorem trail_outline (hspells : Spells make) (updates : List (KeyPath × String))
    (es : List (String × Outline)) :
    trail Document.set updates (make (Outline.spellEntries κ ν es)) =
      (trail Outline.setText updates es).map
        (List.map fun (fs, changed) => (make (Outline.spellEntries κ ν fs), changed)) := by
  refine trail_map (f := fun fs => make (Outline.spellEntries κ ν fs)) ?_ updates es
  intro path text fs
  have hset := (Outline.translation κ ν).set_entries text path.segments fs
  simp only [hspells.set_eq, Outline.spellEntries_eq_map]
  rw [show fs.map (Prod.map (Nested.key ν) (Outline.spell κ ν)) =
    (Outline.translation κ ν).entries fs from rfl, hset, Outline.setText]
  cases Nested.set text path.segments fs <;> rfl

/-- **The three formats behave alike.** Changes to the documents that spell one outline do the same
to all of them: after each change they spell one outline again, with its keys in one order, and the
change has made a difference in all or in none. At every step, as they spell one outline, every path
finds the same text in all of them. -/
theorem trail_spelled (es : List (String × Outline)) (updates : List (KeyPath × String)) :
    ∃ steps : List (List (String × Outline) × Bool),
      trail Document.set updates (.json (Outline.spellEntries _ _ es)) =
        .ok (steps.map fun (fs, changed) => (.json (Outline.spellEntries _ _ fs), changed)) ∧
      trail Document.set updates (.yaml (Outline.spellEntries _ _ es)) =
        .ok (steps.map fun (fs, changed) => (.yaml (Outline.spellEntries _ _ fs), changed)) ∧
      trail Document.set updates (.toml (Outline.spellEntries _ _ es)) =
        .ok (steps.map fun (fs, changed) => (.toml (Outline.spellEntries _ _ fs), changed)) ∧
      ∀ (fs : List (String × Outline)) (path : KeyPath),
        (Document.yaml (Outline.spellEntries _ _ fs)).get? path =
            (Document.json (Outline.spellEntries _ _ fs)).get? path ∧
          (Document.toml (Outline.spellEntries _ _ fs)).get? path =
            (Document.json (Outline.spellEntries _ _ fs)).get? path := by
  obtain ⟨steps, hsteps⟩ := Outline.exists_trail updates es
  refine ⟨steps, ?_, ?_, ?_, fun fs path => ⟨?_, ?_⟩⟩
  · rw [trail_outline spells_json, hsteps]
    rfl
  · rw [trail_outline spells_yaml, hsteps]
    rfl
  · rw [trail_outline spells_toml, hsteps]
    rfl
  · rw [get?_outline spells_yaml, get?_outline spells_json]
  · rw [get?_outline spells_toml, get?_outline spells_json]

end Document

end ConfigGraft
