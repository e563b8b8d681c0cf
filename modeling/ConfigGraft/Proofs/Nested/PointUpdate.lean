import ConfigGraft.Proofs.Nested.Lookup

/-!
# What setting a text does to a tree

Setting a text is an update at one point. The text is found there afterwards, the mappings on the
way to it are there, and what other paths find is the same as before. The mappings on the way keep
their keys in order; each of them gets one new key at most, at its end, and the entries at its other
keys stay as they are, whatever kinds of keys and values these have.

## Main results

* `Nested.changed_of_set` — setting says whether another text, or none, was there before;
* `Nested.keepsOrder_put`, `Nested.keepsOrder_set` — what becomes of the mappings on the way;
* `Nested.pointUpdate_of_set` — **setting a text is an update at one point.**
-/

namespace ConfigGraft.Nested

variable {κ ν : Type} [Nested κ ν]

/-! ### Mappings on the way -/

/-- The mapping at a place in a tree; the tree itself is at the empty one. -/
def mapping? : List String → List (κ × ν) → Option (List (κ × ν))
  | [], es => some es
  | segment :: more, es => ((find? segment es).bind entries?).bind (mapping? more)

/-- **A mapping keeps its order** when it is changed at a segment: its keys are the same, with the
one that the segment names behind them if it was not among them, and so are all other entries. -/
structure KeepsOrder (segment : String) (before after : List (κ × ν)) : Prop where
  keys : after.map Prod.fst = before.map Prod.fst ∨
    key ν segment ∉ before.map Prod.fst ∧
      after.map Prod.fst = before.map Prod.fst ++ [key ν segment]
  others : after.filter (!isKey ν segment ·.1) = before.filter (!isKey ν segment ·.1)

/-- **An update at one point** of a tree: the text is found at the path, what paths apart from it
find is as before, the way to it leads through mappings, and those that were there already keep
their order. -/
structure PointUpdate (path : List String) (text : String) (changed : Bool)
    (es es' : List (κ × ν)) : Prop where
  found : get? path es' = some text
  changed_iff : changed = true ↔ get? path es ≠ some text
  apart : ∀ other, ¬ path <+: other → ¬ other <+: path → value? other es' = value? other es
  leads : ∀ front, front ≠ [] → front <+: path → front ≠ path →
    ∃ inner : List (κ × ν), value? front es' = some (ofEntries inner)
  order : ∀ front segment back, path = front ++ segment :: back →
    ∃ after, mapping? front es' = some after ∧
      ∀ before, mapping? front es = some before → KeepsOrder segment before after

/-- The mapping below a segment is found in the mapping there, or in the empty one. -/
theorem mapping?_inside {segment : String} {front : List String} {es before : List (κ × ν)}
    (h : mapping? (segment :: front) es = some before) :
    mapping? front (inside (find? segment es)) = some before := by
  obtain ⟨inner, hinner, hbefore⟩ := Option.bind_eq_some_iff.1 h
  rwa [inside, hinner]

/-- Setting says whether another text, or none, was there before. -/
theorem changed_of_set {value : String} {path : List String} {es es' : List (κ × ν)}
    {changed : Bool} (hpath : path ≠ []) (h : set value path es = .ok (es', changed)) :
    changed = true ↔ get? path es ≠ some value := by
  induction path generalizing es es' with
  | nil => exact absurd rfl hpath
  | cons segment more ih =>
      cases more with
      | nil =>
          cases h
          exact bne_iff_ne
      | cons next more =>
          obtain ⟨-, inner, hset, -⟩ := set_cons_eq_ok.1 h
          rw [ih (List.cons_ne_nil _ _) hset, get?_eq, get?_eq]
          rfl

/-! ### Order -/

variable [Lawful κ ν]

/-- An update keeps the order of the keys, a new one standing last. -/
theorem keepsOrder_put (segment : String) (v : ν) (es : List (κ × ν)) :
    KeepsOrder segment es (put segment v es) := by
  induction es with
  | nil =>
      have hkey : isKey ν segment (key ν segment) = true := Lawful.isKey_iff.2 rfl
      exact ⟨.inr ⟨List.not_mem_nil, rfl⟩, by simp [put, hkey]⟩
  | cons e rest ih =>
      obtain ⟨k, w⟩ := e
      rw [put]
      split
      · rename_i hk
        exact ⟨.inl rfl, by simp [hk]⟩
      · rename_i hk
        refine ⟨?_, by simp [hk, ih.others]⟩
        rcases ih.keys with hkeys | ⟨hnew, hkeys⟩
        · exact .inl (congrArg (k :: ·) hkeys)
        · refine .inr ⟨?_, congrArg (k :: ·) hkeys⟩
          rw [List.map_cons, List.mem_cons, not_or]
          exact ⟨fun heq => hk (Lawful.isKey_iff.2 heq.symm), hnew⟩

/-- **The mappings on the way to a text keep their order** when it is set. -/
theorem keepsOrder_set {value segment : String} {front back : List String}
    {es es' : List (κ × ν)} {changed : Bool}
    (h : set value (front ++ segment :: back) es = .ok (es', changed)) :
    ∃ after, mapping? front es' = some after ∧
      ∀ before, mapping? front es = some before → KeepsOrder segment before after := by
  induction front generalizing es es' with
  | nil =>
      refine ⟨es', rfl, ?_⟩
      rintro before ⟨⟩
      cases back with
      | nil =>
          cases h
          exact keepsOrder_put segment _ es
      | cons next back =>
          obtain ⟨-, inner, -, rfl⟩ := set_cons_eq_ok.1 h
          exact keepsOrder_put segment _ es
  | cons first front ih =>
      -- There is a segment behind the first one, so the text is set in the mapping there.
      obtain ⟨next, more, hmore⟩ : ∃ next more, front ++ segment :: back = next :: more := by
        cases front <;> exact ⟨_, _, rfl⟩
      rw [List.cons_append, hmore] at h
      obtain ⟨-, inner, hset, rfl⟩ := set_cons_eq_ok.1 h
      obtain ⟨after, hafter, horder⟩ := ih (hmore ▸ hset)
      refine ⟨after, ?_, fun before hbefore => horder before (mapping?_inside hbefore)⟩
      rw [mapping?, find?_put, if_pos rfl, Option.bind_some, Lawful.entries?_ofEntries]
      exact hafter

/-! ### Updates -/

/-- **Setting a text is an update at one point.** -/
theorem pointUpdate_of_set {value : String} {path : List String} {es es' : List (κ × ν)}
    {changed : Bool} (hpath : path ≠ []) (h : set value path es = .ok (es', changed)) :
    PointUpdate path value changed es es' where
  found := by
    rw [get?_eq, value?_set_self hpath h]
    exact Lawful.text?_ofText value
  changed_iff := changed_of_set hpath h
  apart other hleads hother := value?_set_of_apart hleads hother h
  leads front hfront hleads hne := value?_set_of_prefix hfront hleads hne h
  order front segment back heq := keepsOrder_set (heq ▸ h)

end ConfigGraft.Nested
