import ConfigGraft.Proofs.Document.Again

/-!
# Mappings that are closed to changes

A text cannot be set below a mapping that is closed to changes, as one under a tag is in YAML. This
is the only way in which setting can fail. Updates bring no such mappings, and they take one away by
setting a text at it or above it. So for a list of updates it can be seen from the document that it
starts with whether and where it fails.

## Main results

* `Nested.set_eq_error_iff` — setting fails below a closed mapping only;
* `Nested.closed_set` — a mapping is closed after an update if it was so before and is not met;
* `Document.setAll_eq_error_iff` — **updates fail if one of them leads through a tagged mapping**
  that none before it meets;
* `Document.set_sampleTagged` — a document that was read, and a text that cannot be set in it.
-/

namespace ConfigGraft

/-- A map fails where what it is applied to fails, there being one failure only. -/
theorem map_eq_error {α β : Type} {x : Except SealedMapping α} {f : α → β} :
    x.map f = .error .mk ↔ x = .error .mk := by
  cases x <;> simp [Except.map]

namespace Nested

variable {κ ν : Type} [Nested κ ν]

/-! ### Trees -/

/-- **Setting fails exactly if the path leads through a mapping that is closed to changes.** -/
theorem set_eq_error_iff {value : String} {path : List String} {es : List (κ × ν)} :
    set value path es = .error .mk ↔
      ∃ front back, path = front ++ back ∧ front ≠ [] ∧ back ≠ [] ∧
        closed (value? front es) = true := by
  induction path generalizing es with
  | nil =>
      constructor
      · intro h
        cases h
      · rintro ⟨front, back, heq, hfront, -⟩
        exact absurd (List.append_eq_nil_iff.1 heq.symm).1 hfront
  | cons segment more ih =>
      cases more with
      | nil =>
          constructor
          · intro h
            cases h
          · rintro ⟨front, back, heq, hfront, hback, -⟩
            rcases List.append_eq_singleton_iff.1 heq.symm with ⟨hnil, -⟩ | ⟨-, hnil⟩
            · exact absurd hnil hfront
            · exact absurd hnil hback
      | cons next more =>
          rw [set_cons]
          cases hclosed : closed (find? segment es) with
          | true =>
              rw [if_pos rfl]
              exact iff_of_true rfl ⟨[segment], next :: more, rfl, List.cons_ne_nil _ _,
                List.cons_ne_nil _ _, hclosed⟩
          | false =>
              rw [if_neg (by simp), map_eq_error, ih]
              constructor
              · rintro ⟨front, back, heq, hfront, hback, hvalue⟩
                refine ⟨segment :: front, back, congrArg (segment :: ·) heq,
                  List.cons_ne_nil _ _, hback, ?_⟩
                cases front with
                | nil => exact absurd rfl hfront
                | cons second front => exact hvalue
              · rintro ⟨front, back, heq, hfront, hback, hvalue⟩
                cases front with
                | nil => exact absurd rfl hfront
                | cons first front =>
                    obtain ⟨rfl, hmore⟩ := List.cons.inj heq
                    cases front with
                    | nil => exact absurd hvalue (by simpa [value?] using hclosed)
                    | cons second front =>
                        exact ⟨_, back, hmore, List.cons_ne_nil _ _, hback, hvalue⟩

variable [Lawful κ ν]

/-- **A mapping is closed after an update if it was so before** and the update does not meet it. -/
theorem closed_set {value : String} {path place : List String} {es es' : List (κ × ν)}
    {changed : Bool} (hpath : path ≠ []) (hplace : place ≠ [])
    (h : set value path es = .ok (es', changed)) :
    closed (value? place es') = true ↔
      ¬ (path <+: place ∨ place <+: path) ∧ closed (value? place es) = true := by
  by_cases hmeets : path <+: place ∨ place <+: path
  · -- What stands at a place that the update meets is a text, nothing, or a mapping made by it.
    have hopen : closed (value? place es') = false := by
      by_cases heq : place = path
      · rw [heq, value?_set_self hpath h]
        simp [closed]
      · rcases hmeets with hleads | hleads
        · rw [value?_set_of_extends hpath hleads (Ne.symm heq) h]
          rfl
        · obtain ⟨inner, hinner⟩ := value?_set_of_prefix hplace hleads heq h
          rw [hinner]
          simp [closed]
    simp [hopen, hmeets]
  · obtain ⟨hleads, hback⟩ := not_or.1 hmeets
    rw [value?_set_of_apart hleads hback h]
    simp [hmeets]

end Nested

/-! ### Documents -/

/-- The beginning of a path is a path. -/
theorem KeyPath.exists_of_prefix {path : KeyPath} {front : List String}
    (hfront : front ≠ []) (h : front <+: path.segments) :
    ∃ place : KeyPath, place.segments = front :=
  ⟨⟨front, hfront, fun s hs => path.ne_empty s (h.subset hs),
      fun s hs => path.no_dot s (h.subset hs)⟩,
    rfl⟩

namespace Document

/-- Whether a mapping under a tag stands at a place in a document. Only YAML has tags. -/
def TaggedMappingAt (place : KeyPath) : Document → Prop
  | .yaml es => ∃ tag value entries,
      Nested.value? place.segments es = some (.tagged tag value) ∧ value.untagged = .mapping entries
  | _ => False

/-- In YAML the mappings that are closed to changes are those under a tag. -/
theorem closed_iff {place : KeyPath} {es : Yaml.Mapping} :
    Nested.closed (Nested.value? place.segments es) = true ↔
      (Document.yaml es).TaggedMappingAt place := by
  rw [TaggedMappingAt]
  cases Nested.value? place.segments es with
  | none => simp [Nested.closed]
  | some v =>
      cases v with
      | tagged tag value =>
          simp only [Nested.closed, Option.any_some, Nested.entries?, Nested.isSealed,
            Yaml.Value.untagged, Bool.and_true]
          cases hvalue : value.untagged with
          | mapping entries => exact iff_of_true rfl ⟨tag, value, entries, rfl, hvalue⟩
          | _ =>
              refine iff_of_false (by simp) ?_
              rintro ⟨tag', value', entries, ⟨⟩, hmapping⟩
              cases hvalue.symm.trans hmapping
      | _ => simp [Nested.closed, Nested.isSealed]

/-- **A text cannot be set in a YAML document exactly if the path leads through a tagged
mapping.** -/
theorem set_yaml_eq_error_iff {path : KeyPath} {text : String} {es : Yaml.Mapping} :
    (Document.yaml es).set path text = .error .mk ↔
      ∃ place : KeyPath, place.segments <+: path.segments ∧ place ≠ path ∧
        (Document.yaml es).TaggedMappingAt place := by
  have hset : (Document.yaml es).set path text = .error .mk ↔
      Nested.set text path.segments es = .error .mk := by
    rw [set, map_eq_error]
  rw [hset, Nested.set_eq_error_iff]
  constructor
  · rintro ⟨front, back, heq, hfront, hback, hclosed⟩
    obtain ⟨place, rfl⟩ := KeyPath.exists_of_prefix hfront ⟨back, heq.symm⟩
    refine ⟨place, ⟨back, heq.symm⟩, ?_, closed_iff.1 hclosed⟩
    rintro rfl
    exact hback (List.append_right_eq_self.1 heq.symm)
  · rintro ⟨place, ⟨back, heq⟩, hne, htagged⟩
    refine ⟨place.segments, back, heq.symm, place.segments_ne_nil, ?_, closed_iff.2 htagged⟩
    rintro rfl
    exact hne (KeyPath.ext ((List.append_nil _).symm.trans heq))

/-- A list of texts cannot be set if its first cannot, or the others cannot behind it. -/
theorem setAll_cons_eq_error {update : KeyPath × String} {rest : List (KeyPath × String)}
    {document : Document} :
    document.setAll (update :: rest) = .error .mk ↔
      document.set update.1 update.2 = .error .mk ∨
        ∃ next changed, document.set update.1 update.2 = .ok (next, changed) ∧
          next.setAll rest = .error .mk := by
  rw [setAll]
  cases document.set update.1 update.2 with
  | error crash => exact iff_of_true rfl (.inl rfl)
  | ok result =>
      obtain ⟨next, changed⟩ := result
      cases hrest : next.setAll rest <;> simp [hrest]

/-- Updates of a YAML document fail if one of them leads through a tagged mapping that none before
it meets. -/
theorem setAll_yaml_eq_error_iff {updates : List (KeyPath × String)} {es : Yaml.Mapping} :
    (Document.yaml es).setAll updates = .error .mk ↔
      ∃ before update after, updates = before ++ update :: after ∧
        ∃ place : KeyPath, place.segments <+: update.1.segments ∧ place ≠ update.1 ∧
          (Document.yaml es).TaggedMappingAt place ∧ ∀ u ∈ before, ¬ u.1.Meets place := by
  induction updates generalizing es with
  | nil =>
      constructor
      · intro h
        cases h
      · rintro ⟨before, update, after, heq, -⟩
        cases before <;> cases heq
  | cons first rest ih =>
      rw [setAll_cons_eq_error, set_yaml_eq_error_iff]
      -- A tagged mapping that is still there after the first update was there before it.
      have hstays {fs : Yaml.Mapping} {changed : Bool} {place : KeyPath}
          (hset : Nested.set first.2 first.1.segments es = .ok (fs, changed)) :
          (Document.yaml fs).TaggedMappingAt place ↔
            ¬ first.1.Meets place ∧ (Document.yaml es).TaggedMappingAt place := by
        rw [← closed_iff, ← closed_iff]
        exact Nested.closed_set first.1.segments_ne_nil place.segments_ne_nil hset
      constructor
      · rintro (⟨place, hleads, hne, htagged⟩ | ⟨next, changed, hset, hrest⟩)
        · exact ⟨[], first, rest, rfl, place, hleads, hne, htagged, List.forall_mem_nil _⟩
        · obtain ⟨fs, hfs, rfl⟩ := spells_yaml.set_eq_ok_iff.1 hset
          obtain ⟨before, update, after, rfl, place, hleads, hne, htagged, hapart⟩ := ih.1 hrest
          obtain ⟨hfirst, htagged⟩ := (hstays hfs).1 htagged
          exact ⟨first :: before, update, after, rfl, place, hleads, hne, htagged,
            List.forall_mem_cons.2 ⟨hfirst, hapart⟩⟩
      · rintro ⟨before, update, after, heq, place, hleads, hne, htagged, hapart⟩
        cases before with
        | nil =>
            obtain ⟨rfl, -⟩ := List.cons.inj heq
            exact .inl ⟨place, hleads, hne, htagged⟩
        | cons u before =>
            obtain ⟨rfl, hrest⟩ := List.cons.inj heq
            obtain ⟨hfirst, hapart⟩ := List.forall_mem_cons.1 hapart
            cases hset : Nested.set first.2 first.1.segments es with
            | error crash =>
                have hfails : (Document.yaml es).set first.1 first.2 = .error .mk := by
                  rw [set, hset]
                  rfl
                exact .inl (set_yaml_eq_error_iff.1 hfails)
            | ok result =>
                obtain ⟨fs, changed⟩ := result
                refine .inr ⟨_, _, spells_yaml.set_eq_ok_iff.2 ⟨fs, hset, rfl⟩, ih.2 ?_⟩
                exact ⟨before, update, after, hrest, place, hleads, hne,
                  (hstays hset).2 ⟨hfirst, htagged⟩, hapart⟩

/-- Updates never fail where no value is closed to changes. -/
theorem Spells.setAll_ne_error {κ ν : Type} [Nested κ ν] {make : List (κ × ν) → Document}
    (hspells : Spells make) (hopen : ∀ v : ν, Nested.isSealed v = false) (es : List (κ × ν))
    (updates : List (KeyPath × String)) : (make es).setAll updates ≠ .error .mk := by
  obtain ⟨es', dirty, hset, -⟩ : ∃ es' dirty,
      (make es).setAll updates = .ok (make es', dirty) ∧ True :=
    hspells.exists_setAll hopen (fun _ _ => trivial) trivial updates
  intro hfails
  cases hset.symm.trans hfails

/-- **Updates fail exactly if one of them leads through a mapping under a tag** that stands in the
document from the start and that none before it meets. So they never fail in JSON, TOML and
properties, nor in a YAML document without tags, however many there are. -/
theorem setAll_eq_error_iff {document : Document} {updates : List (KeyPath × String)} :
    document.setAll updates = .error .mk ↔
      ∃ before update after, updates = before ++ update :: after ∧
        ∃ place : KeyPath, place.segments <+: update.1.segments ∧ place ≠ update.1 ∧
          document.TaggedMappingAt place ∧ ∀ u ∈ before, ¬ u.1.Meets place := by
  cases document with
  | yaml es => exact setAll_yaml_eq_error_iff
  | json es =>
      have hset := spells_json.setAll_ne_error (fun _ => rfl) es updates
      simp [hset, TaggedMappingAt]
  | toml es =>
      have hset := spells_toml.setAll_ne_error (fun _ => rfl) es updates
      simp [hset, TaggedMappingAt]
  | properties table =>
      obtain ⟨dirty, hset⟩ := setAll_properties updates table
      simp [hset, TaggedMappingAt]

/-! ### A text that cannot be set -/

/-- A text with a mapping under a tag. -/
def sampleTagged : String :=
  String.ofList ['a', ':', ' ', '!', 't', ' ', '{', 'b', ':', ' ', 'c', '}']

/-- What is read of the text. -/
def sampleTaggedMapping : Yaml.Mapping :=
  [(.string "a", .tagged "t" (.mapping [(.string "b", .string "c")]))]

/-- The text is read, and where a text is found in it none can be set. -/
theorem set_sampleTagged :
    parse .yaml sampleTagged = .ok (.yaml sampleTaggedMapping) ∧
      (Document.yaml sampleTaggedMapping).get? ⟨["a", "b"], by simp, by simp, by simp⟩ = some "c" ∧
      (Document.yaml sampleTaggedMapping).set ⟨["a", "b"], by simp, by simp, by simp⟩ "x" =
        .error .mk := by
  have htokens : Yaml.Token.readAll? sampleTagged.toList = some [.openBlockMapping, .key,
      .scalar true ['a'], .value, .tag ⟨['!'], ['t'.toUInt8]⟩, .openMapping, .key,
      .scalar true ['b'], .value, .scalar true ['c'], .closeMapping, .closeBlock] := by
    rw [sampleTagged, String.toList_ofList]
    decide
  have hblank : isBlankYaml sampleTagged.toList = false := by
    rw [sampleTagged, String.toList_ofList]
    decide
  have hread : Yaml.Value.read? sampleTagged = some (.mapping sampleTaggedMapping) := by
    rw [Yaml.Value.read?, Yaml.Node.ofText?, htokens]
    rfl
  refine ⟨?_, rfl, rfl⟩
  rw [parse, parseYaml, hread, hblank]
  rfl

end Document

end ConfigGraft
