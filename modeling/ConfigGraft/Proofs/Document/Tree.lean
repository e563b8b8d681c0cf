import ConfigGraft.Document
import ConfigGraft.Proofs.Nested.Lookup

/-!
# Documents as trees

Three of the formats spell trees of mappings, each with values of its own, and what setting does to
a tree does not depend on the spelling. So facts about documents are shown once for all spellings
and once for tables of properties.

## Main results

* `Document.cases_tree` — a document is a tree in some lawful spelling, or a table of properties;
* `Document.get?_set` — what a path of a tree finds after a text was set;
* `Document.agreesAt_set` — **setting a text leaves what is found elsewhere as it is.**
-/

namespace ConfigGraft

/-! ### Spellings -/

instance : Nested.Lawful String Json.Value where
  isKey_iff := beq_iff_eq.trans eq_comm
  key_injective h := h
  entries?_ofEntries _ := rfl
  text?_ofEntries _ := rfl
  isSealed_ofEntries _ := rfl
  entries?_ofText _ := rfl
  text?_ofText _ := rfl

instance : Nested.Lawful String Toml.Value where
  isKey_iff := beq_iff_eq.trans eq_comm
  key_injective h := h
  entries?_ofEntries _ := rfl
  text?_ofEntries _ := rfl
  isSealed_ofEntries _ := rfl
  entries?_ofText _ := rfl
  text?_ofText _ := rfl

instance : Nested.Lawful Yaml.Value Yaml.Value where
  isKey_iff {segment k} := by
    cases k with
    | string s =>
        exact Iff.trans (beq_iff_eq (a := segment) (b := s))
          ⟨fun h => h ▸ rfl, fun h => (Yaml.Value.string.inj h).symm⟩
    | _ => exact ⟨nofun, nofun⟩
  key_injective h := Yaml.Value.string.inj h
  entries?_ofEntries _ := rfl
  text?_ofEntries _ := rfl
  isSealed_ofEntries _ := rfl
  entries?_ofText _ := rfl
  text?_ofText _ := rfl

/-! ### Paths -/

/-- Paths **meet** if they are the same, or one of them leads on from the other. -/
def KeyPath.Meets (p q : KeyPath) : Prop := p.segments <+: q.segments ∨ q.segments <+: p.segments

instance (p q : KeyPath) : Decidable (p.Meets q) :=
  inferInstanceAs (Decidable (p.segments <+: q.segments ∨ q.segments <+: p.segments))

/-- A path meets itself. -/
theorem KeyPath.meets_self (p : KeyPath) : p.Meets p := .inl (List.prefix_refl _)

/-- Paths of the same text are the same. -/
theorem KeyPath.text_injective {p q : KeyPath} (h : p.text = q.text) : p = q := by
  have hparse := parse_text p
  rw [h, parse_text q] at hparse
  exact (Except.ok.inj hparse).symm

namespace Document

/-! ### Trees -/

/-- Two documents **agree at a path** if they are of one format and the path finds the same in both,
be it a text or not. -/
def AgreesAt (path : KeyPath) : Document → Document → Prop
  | .yaml es, .yaml fs => Nested.value? path.segments es = Nested.value? path.segments fs
  | .json es, .json fs => Nested.value? path.segments es = Nested.value? path.segments fs
  | .toml es, .toml fs => Nested.value? path.segments es = Nested.value? path.segments fs
  | .properties t, .properties u => t.value? path.text = u.value? path.text
  | _, _ => False

/-- A document agrees with itself. -/
theorem AgreesAt.refl (path : KeyPath) (document : Document) : AgreesAt path document document := by
  cases document <;> rfl

/-- Agreement at a path is passed on. -/
theorem AgreesAt.trans {path : KeyPath} {d e f : Document} (h : AgreesAt path d e)
    (h' : AgreesAt path e f) : AgreesAt path d f := by
  cases d <;> cases e <;> first | cases h | (cases f <;> first | cases h' | exact Eq.trans h h')

/-- A way to make documents of trees in a spelling, in which documents are read and set as the
trees are. -/
structure Spells {κ ν : Type} [Nested κ ν] (make : List (κ × ν) → Document) : Prop where
  format_ne : ∀ es, (make es).format ≠ .properties
  get?_eq : ∀ path es, (make es).get? path = Nested.get? path.segments es
  set_eq : ∀ path text es, (make es).set path text =
    (Nested.set text path.segments es).map fun (es, changed) => (make es, changed)
  agreesAt_iff : ∀ path es fs, AgreesAt path (make es) (make fs) ↔
    Nested.value? path.segments es = Nested.value? path.segments fs

/-- A document of the first format is spelled by its mapping. -/
theorem spells_yaml : Spells Document.yaml :=
  ⟨nofun, fun _ _ => rfl, fun _ _ _ => rfl, fun _ _ _ => .rfl⟩

/-- One of the second is spelled by its object. -/
theorem spells_json : Spells Document.json :=
  ⟨nofun, fun _ _ => rfl, fun _ _ _ => rfl, fun _ _ _ => .rfl⟩

/-- One of the third is spelled by its table. -/
theorem spells_toml : Spells Document.toml :=
  ⟨nofun, fun _ _ => rfl, fun _ _ _ => rfl, fun _ _ _ => .rfl⟩

/-- **A document is a tree in some lawful spelling, or a table of properties.** -/
@[elab_as_elim]
theorem cases_tree {motive : Document → Prop} (document : Document)
    (tree : ∀ {κ ν : Type} [Nested κ ν] [Nested.Lawful κ ν] {make : List (κ × ν) → Document},
      Spells make → ∀ es, motive (make es))
    (table : ∀ t, motive (.properties t)) : motive document := by
  cases document with
  | yaml es => exact tree spells_yaml es
  | json es => exact tree spells_json es
  | toml es => exact tree spells_toml es
  | properties t => exact table t

/-- Setting a text in a tree makes a tree in the same spelling. -/
theorem Spells.set_eq_ok_iff {κ ν : Type} [Nested κ ν] {make : List (κ × ν) → Document}
    (hspells : Spells make) {path : KeyPath} {text : String} {es : List (κ × ν)} {next : Document}
    {changed : Bool} :
    (make es).set path text = .ok (next, changed) ↔
      ∃ fs, Nested.set text path.segments es = .ok (fs, changed) ∧ next = make fs := by
  rw [hspells.set_eq, map_eq_ok]
  constructor
  · rintro ⟨⟨fs, changed'⟩, hset, heq⟩
    cases heq
    exact ⟨fs, hset, rfl⟩
  · rintro ⟨fs, hset, rfl⟩
    exact ⟨_, hset, rfl⟩

/-! ### One text -/

variable {document next : Document} {path : KeyPath} {text : String} {changed : Bool}

/-- What a path of a tree finds after a text was set: the text itself, nothing where the paths meet
otherwise, and elsewhere what it found before. -/
theorem get?_set (hformat : document.format ≠ .properties)
    (h : document.set path text = .ok (next, changed)) (other : KeyPath) :
    next.get? other =
      if path = other then some text else if path.Meets other then none
      else document.get? other := by
  cases document using cases_tree with
  | table t => exact absurd rfl hformat
  | @tree κ ν _ _ make hspells es =>
      obtain ⟨fs, hset, rfl⟩ := hspells.set_eq_ok_iff.1 h
      rw [hspells.get?_eq, hspells.get?_eq, Nested.get?_eq]
      have hne (hpath : path ≠ other) : path.segments ≠ other.segments :=
        fun heq => hpath (KeyPath.ext heq)
      split
      · rename_i hpath
        subst hpath
        rw [Nested.value?_set_self path.segments_ne_nil hset, Option.bind_some,
          Nested.Lawful.text?_ofText]
      · rename_i hpath
        split
        · rename_i hmeets
          rcases hmeets with hleads | hleads
          · rw [Nested.value?_set_of_extends path.segments_ne_nil hleads (hne hpath) hset,
              Option.bind_none]
          · obtain ⟨inner, hinner⟩ := Nested.value?_set_of_prefix other.segments_ne_nil hleads
              (hne hpath).symm hset
            rw [hinner, Option.bind_some, Nested.Lawful.text?_ofEntries]
        · rename_i hmeets
          obtain ⟨hpath', hother⟩ := not_or.1 hmeets
          rw [Nested.value?_set_of_apart hpath' hother hset, Nested.get?_eq]

/-- A text that was set is found. -/
theorem get?_set_self (h : document.set path text = .ok (next, changed)) :
    next.get? path = some text := by
  by_cases hformat : document.format = .properties
  · cases document with
    | properties table =>
        cases h
        exact (Properties.value?_insert ..).trans (if_pos rfl)
    | yaml | json | toml => cases hformat
  · rw [get?_set hformat h, if_pos rfl]

/-- **Setting a text leaves what is found elsewhere as it is.** -/
theorem agreesAt_set {other : KeyPath} (hapart : ¬ path.Meets other)
    (h : document.set path text = .ok (next, changed)) : AgreesAt other document next := by
  cases document using cases_tree with
  | @tree κ ν _ _ make hspells es =>
      obtain ⟨fs, hset, rfl⟩ := hspells.set_eq_ok_iff.1 h
      obtain ⟨hpath, hother⟩ := not_or.1 hapart
      exact (hspells.agreesAt_iff other es fs).2 (Nested.value?_set_of_apart hpath hother hset).symm
  | table t =>
      cases h
      have hne : other.text ≠ path.text := by
        intro heq
        exact hapart (KeyPath.text_injective heq ▸ KeyPath.meets_self path)
      exact ((Properties.value?_insert ..).trans (if_neg hne)).symm

end Document

end ConfigGraft
