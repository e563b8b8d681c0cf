import ConfigGraft.Proofs.Nested.Lookup

/-!
# Trees in other spellings

A translation puts the values of one spelling of trees into another, so that each shows what it
showed before. What reading and setting do to a tree depends on what its values show, so they do the
same to the translated tree: the same text is found, and the translation of the changed tree comes
of setting a text in the translation of the tree.

## Main results

* `Nested.Translation.get?_entries` — the same texts are found;
* `Nested.Translation.set_entries` — **setting a text commutes with translating.**
-/

namespace ConfigGraft.Nested

/-- **A translation** of the trees in one spelling into another: each value shows what it showed. -/
structure Translation (κ ν κ' ν' : Type) [Nested κ ν] [Nested κ' ν'] where
  key : κ → κ'
  value : ν → ν'
  key_segment : ∀ segment, key (Nested.key ν segment) = Nested.key ν' segment
  isKey_key : ∀ segment k, isKey ν' segment (key k) = isKey ν segment k
  value_ofEntries : ∀ es, value (ofEntries es) = ofEntries (es.map (Prod.map key value))
  value_ofText : ∀ text, value (ofText text) = ofText text
  entries?_value : ∀ v, entries? (value v) = (entries? v).map (List.map (Prod.map key value))
  text?_value : ∀ v, text? (value v) = text? v
  isSealed_value : ∀ v, (entries? v).isSome = true → isSealed (value v) = isSealed v

namespace Translation

variable {κ ν κ' ν' : Type} [Nested κ ν] [Nested κ' ν'] (t : Translation κ ν κ' ν')

/-- The entries of a mapping, translated one by one. -/
def entries (es : List (κ × ν)) : List (κ' × ν') := es.map (Prod.map t.key t.value)

/-! ### One mapping -/

/-- What is found in the translation is the translation of what is found. -/
theorem find?_entries (segment : String) (es : List (κ × ν)) :
    find? segment (t.entries es) = (find? segment es).map t.value := by
  induction es with
  | nil => rfl
  | cons e rest ih =>
      obtain ⟨k, v⟩ := e
      rw [entries, List.map_cons, Prod.map_apply, find?, find?, t.isKey_key]
      split
      · rfl
      · exact ih

/-- A translation put into a translation is the translation of the update. -/
theorem put_entries (segment : String) (v : ν) (es : List (κ × ν)) :
    put segment (t.value v) (t.entries es) = t.entries (put segment v es) := by
  induction es with
  | nil => simp [entries, put, t.key_segment]
  | cons e rest ih =>
      obtain ⟨k, w⟩ := e
      rw [entries, List.map_cons, Prod.map_apply, put, put, t.isKey_key]
      split
      · rfl
      · rw [entries, List.map_cons, Prod.map_apply]
        exact congrArg _ ih

/-- The entries inside a translated value are translated. -/
theorem inside_map (old? : Option ν) : inside (old?.map t.value) = t.entries (inside old?) := by
  cases old? with
  | none => rfl
  | some v =>
      rw [Option.map_some, inside, inside, Option.bind_some, Option.bind_some, t.entries?_value]
      cases entries? v <;> rfl

/-- A mapping is closed to changes in both formats or in none. -/
theorem closed_map (old? : Option ν) : closed (old?.map t.value) = closed old? := by
  cases old? with
  | none => rfl
  | some v =>
      simp only [closed, Option.map_some, Option.any_some, t.entries?_value, Option.isSome_map]
      cases hentries : (entries? v).isSome with
      | false => rfl
      | true => rw [t.isSealed_value v hentries]

/-! ### Paths -/

/-- The same texts are found. -/
theorem get?_entries (path : List String) (es : List (κ × ν)) :
    get? path (t.entries es) = get? path es := by
  induction path generalizing es with
  | nil => rfl
  | cons segment more ih =>
      cases more with
      | nil =>
          rw [get?, get?, find?_entries]
          cases find? segment es with
          | none => rfl
          | some v => exact t.text?_value v
      | cons next more =>
          rw [get?, get?, find?_entries]
          cases find? segment es with
          | none => rfl
          | some v =>
              rw [Option.map_some, Option.bind_some, Option.bind_some, t.entries?_value]
              cases entries? v with
              | none => rfl
              | some inner => exact ih inner

/-- **Setting a text commutes with translating,** and makes the same difference. -/
theorem set_entries (text : String) (path : List String) (es : List (κ × ν)) :
    set text path (t.entries es) =
      (set text path es).map fun (fs, changed) => (t.entries fs, changed) := by
  induction path generalizing es with
  | nil => rfl
  | cons segment more ih =>
      cases more with
      | nil =>
          have hsame : (find? segment (t.entries es)).bind text? = (find? segment es).bind text? :=
            t.get?_entries [segment] es
          rw [set, set, hsame, ← t.value_ofText, put_entries]
          rfl
      | cons next more =>
          rw [set_cons, set_cons, find?_entries, closed_map, inside_map, ih]
          split
          · rfl
          · rcases set text (next :: more) (inside (find? segment es)) with crash | ⟨inner, changed⟩
            · rfl
            · have hput := t.put_entries segment (ofEntries inner) es
              rw [t.value_ofEntries] at hput
              exact congrArg (fun fs => Except.ok (fs, changed)) hput

end Translation

end ConfigGraft.Nested
