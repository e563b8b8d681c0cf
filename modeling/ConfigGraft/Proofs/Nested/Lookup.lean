import ConfigGraft.Proofs.Nested

/-!
# What is found where a text was set

A path leads through mappings to a value. Setting a text at a path changes what is found there, at
the paths that lead there, which find mappings afterwards, and at the paths that lead on from there,
which find nothing any more. What any other path finds stays as it is.

These facts rest on a few laws of the spelling of a tree: a key names one segment, and a value shows
what it was made of.

## Main results

* `Nested.value?_set_self`, `Nested.value?_set_of_prefix`, `Nested.value?_set_of_extends` — what is
  found at the path, before it and behind it;
* `Nested.value?_set_of_apart` — **what other paths find stays as it is.**
-/

namespace ConfigGraft.Nested

/-- **The laws of a spelling:** a key is that of one segment, and what is made of entries or of a
text shows just these. -/
class Lawful (κ ν : Type) [Nested κ ν] : Prop where
  isKey_iff : ∀ {segment : String} {k : κ}, isKey ν segment k = true ↔ k = key ν segment
  key_injective : ∀ {s t : String}, key ν s = key ν t → s = t
  entries?_ofEntries : ∀ es : List (κ × ν), entries? (ofEntries es) = some es
  text?_ofEntries : ∀ es : List (κ × ν), text? (ofEntries es) = none
  isSealed_ofEntries : ∀ es : List (κ × ν), isSealed (ofEntries es) = false
  entries?_ofText : ∀ text : String, entries? (ofText text : ν) = none
  text?_ofText : ∀ text : String, text? (ofText text : ν) = some text

attribute [simp] Lawful.entries?_ofEntries Lawful.text?_ofEntries Lawful.isSealed_ofEntries
  Lawful.entries?_ofText Lawful.text?_ofText

variable {κ ν : Type} [Nested κ ν]

/-! ### Looking up -/

/-- The value at a path. -/
def value? : List String → List (κ × ν) → Option ν
  | [], _ => none
  | [leaf], es => find? leaf es
  | segment :: next :: more, es => value? (next :: more) (inside (find? segment es))

/-- Nothing is found among no entries. -/
theorem value?_nil (path : List String) : value? path ([] : List (κ × ν)) = none := by
  induction path with
  | nil => rfl
  | cons segment more ih =>
      cases more with
      | nil => rfl
      | cons next more => exact ih

/-- The text at a path is the text that the value there shows. -/
theorem get?_eq (path : List String) (es : List (κ × ν)) :
    get? path es = (value? path es).bind text? := by
  induction path generalizing es with
  | nil => rfl
  | cons segment more ih =>
      cases more with
      | nil => rfl
      | cons next more =>
          rw [get?, value?, inside]
          cases (find? segment es).bind entries? with
          | none => simp [value?_nil]
          | some inner => exact ih inner

variable [Lawful κ ν]

/-- Under the segment that was put stands the new value, and under any other the old one. -/
theorem find?_put (segment other : String) (v : ν) (es : List (κ × ν)) :
    find? other (put segment v es) = if other = segment then some v else find? other es := by
  have hkey (k : κ) (h : isKey ν segment k = true) :
      isKey ν other k = true ↔ other = segment := by
    obtain rfl := Lawful.isKey_iff.1 h
    rw [Lawful.isKey_iff]
    exact ⟨fun heq => (Lawful.key_injective heq).symm, fun heq => heq ▸ rfl⟩
  induction es with
  | nil =>
      simp only [put, find?, hkey _ (Lawful.isKey_iff.2 rfl)]
  | cons e rest ih =>
      obtain ⟨k, w⟩ := e
      rw [put]
      split
      · rename_i hk
        simp only [find?, hkey k hk]
        split <;> rfl
      · rename_i hk
        rw [find?, ih, find?]
        by_cases hother : other = segment
        · subst hother
          simp [hk]
        · simp [hother]

/-- The keys of a mapping after a value was put: those before, and the one that it was put at. -/
theorem mem_keys_put {segment : String} {v : ν} {es : List (κ × ν)} {k : κ} :
    k ∈ (put segment v es).map Prod.fst ↔ k = key ν segment ∨ k ∈ es.map Prod.fst := by
  induction es with
  | nil => simp [put]
  | cons e rest ih =>
      obtain ⟨k', w⟩ := e
      rw [put]
      split
      · rename_i hk
        obtain rfl := Lawful.isKey_iff.1 hk
        simp
      · rw [List.map_cons, List.mem_cons, ih, List.map_cons, List.mem_cons, or_left_comm]

/-- The keys of a mapping differ after a value was put, if they did before. -/
theorem nodup_keys_put (segment : String) (v : ν) {es : List (κ × ν)}
    (h : (es.map Prod.fst).Nodup) : ((put segment v es).map Prod.fst).Nodup := by
  induction es with
  | nil => exact List.pairwise_singleton ..
  | cons e rest ih =>
      obtain ⟨k, w⟩ := e
      obtain ⟨hk, hrest⟩ := List.nodup_cons.1 h
      rw [put]
      split
      · exact h
      · rename_i hne
        refine List.nodup_cons.2 ⟨fun hmem => ?_, ih hrest⟩
        rcases mem_keys_put.1 hmem with heq | hmem
        · exact hne (Lawful.isKey_iff.2 heq)
        · exact hk hmem

/-- What is found at the path where a text was set. -/
theorem value?_set_self {value : String} {path : List String} {es es' : List (κ × ν)}
    {changed : Bool} (hpath : path ≠ []) (h : set value path es = .ok (es', changed)) :
    value? path es' = some (ofText value) := by
  induction path generalizing es es' with
  | nil => exact absurd rfl hpath
  | cons segment more ih =>
      cases more with
      | nil =>
          cases h
          rw [value?, find?_put, if_pos rfl]
      | cons next more =>
          obtain ⟨-, inner, hset, rfl⟩ := set_cons_eq_ok.1 h
          rw [value?, find?_put, if_pos rfl, inside, Option.bind_some, Lawful.entries?_ofEntries]
          exact ih (List.cons_ne_nil _ _) hset

/-- A path that leads to the place where a text was set finds a mapping. -/
theorem value?_set_of_prefix {value : String} {path other : List String} {es es' : List (κ × ν)}
    {changed : Bool} (hother : other ≠ []) (hleads : other <+: path) (hne : other ≠ path)
    (h : set value path es = .ok (es', changed)) :
    ∃ inner : List (κ × ν), value? other es' = some (ofEntries inner) := by
  induction other generalizing path es es' with
  | nil => exact absurd rfl hother
  | cons segment back ih =>
      obtain ⟨rest, rfl⟩ := hleads
      cases back with
      | nil =>
          cases rest with
          | nil => exact absurd (List.append_nil _).symm hne
          | cons next more =>
              obtain ⟨-, inner, -, rfl⟩ := set_cons_eq_ok.1 h
              exact ⟨inner, by rw [value?, find?_put, if_pos rfl]⟩
      | cons next back =>
          obtain ⟨-, inner, hset, rfl⟩ := set_cons_eq_ok.1 h
          rw [value?, find?_put, if_pos rfl, inside, Option.bind_some, Lawful.entries?_ofEntries]
          refine ih (List.cons_ne_nil _ _) (List.prefix_append _ _) ?_ hset
          intro heq
          exact hne (congrArg (segment :: ·) heq)

/-- A path that leads on from the place where a text was set finds nothing. -/
theorem value?_set_of_extends {value : String} {path other : List String} {es es' : List (κ × ν)}
    {changed : Bool} (hpath : path ≠ []) (hleads : path <+: other) (hne : path ≠ other)
    (h : set value path es = .ok (es', changed)) : value? other es' = none := by
  induction path generalizing other es es' with
  | nil => exact absurd rfl hpath
  | cons segment more ih =>
      obtain ⟨rest, rfl⟩ := hleads
      cases more with
      | nil =>
          cases rest with
          | nil => exact absurd (List.append_nil _).symm hne
          | cons next more =>
              cases h
              rw [List.cons_append, List.nil_append, value?, find?_put, if_pos rfl, inside,
                Option.bind_some, Lawful.entries?_ofText]
              exact value?_nil _
      | cons next more =>
          obtain ⟨-, inner, hset, rfl⟩ := set_cons_eq_ok.1 h
          rw [List.cons_append, List.cons_append, value?, find?_put, if_pos rfl, inside,
            Option.bind_some, Lawful.entries?_ofEntries]
          refine ih (List.cons_ne_nil _ _) (List.prefix_append _ _) ?_ hset
          intro heq
          exact hne (congrArg (segment :: ·) heq)

/-- **What other paths find stays as it is,** where neither path leads to the other. -/
theorem value?_set_of_apart {value : String} {path other : List String} {es es' : List (κ × ν)}
    {changed : Bool} (hpath : ¬ path <+: other) (hother : ¬ other <+: path)
    (h : set value path es = .ok (es', changed)) : value? other es' = value? other es := by
  induction path generalizing other es es' with
  | nil => exact absurd List.nil_prefix hpath
  | cons segment more ih =>
      cases other with
      | nil => exact absurd List.nil_prefix hother
      | cons first back =>
          by_cases hfirst : first = segment
          · -- The paths part further on, so both have a second segment.
            subst hfirst
            simp only [List.cons_prefix_cons, true_and] at hpath hother
            cases more with
            | nil => exact absurd List.nil_prefix hpath
            | cons next more =>
                cases back with
                | nil => exact absurd List.nil_prefix hother
                | cons second back =>
                    obtain ⟨-, inner, hset, rfl⟩ := set_cons_eq_ok.1 h
                    rw [value?, find?_put, if_pos rfl, value?]
                    refine (congrArg _ ?_).trans (ih hpath hother hset)
                    simp [inside]
          · -- The paths part at once, so the mapping at the first segment is left alone.
            have hput (v : ν) : value? (first :: back) (put segment v es) =
                value? (first :: back) es := by
              cases back with
              | nil => rw [value?, find?_put, if_neg hfirst, value?]
              | cons second back => rw [value?, find?_put, if_neg hfirst, value?]
            cases more with
            | nil =>
                cases h
                exact hput _
            | cons next more =>
                obtain ⟨-, inner, -, rfl⟩ := set_cons_eq_ok.1 h
                exact hput _

end ConfigGraft.Nested
