import ConfigGraft.Proofs.Nested.Lookup

/-!
# Trees that have grown from texts

A tree into which texts are set, and nothing else, has texts at its leaves, no key twice in a
mapping, and no empty mapping below its root. In such a tree a text can be set at every path, and it
stays one.

## Main results

* `Nested.Grown.exists_set` — **a text is set in a grown tree, which stays grown.**
-/

namespace ConfigGraft.Nested

variable {κ ν : Type} [Nested κ ν]

/-- **Trees that have grown from texts.** -/
inductive Grown : List (κ × ν) → Prop
  | nil : Grown []
  | leaf {name text : String} {rest : List (κ × ν)} :
      key ν name ∉ rest.map Prod.fst → Grown rest → Grown ((key ν name, ofText text) :: rest)
  | branch {name : String} {inner rest : List (κ × ν)} :
      key ν name ∉ rest.map Prod.fst → inner ≠ [] → Grown inner → Grown rest →
      Grown ((key ν name, ofEntries inner) :: rest)

/-- A value that a text or a grown tree is put in as. -/
inductive GrownValue : ν → Prop
  | leaf (text : String) : GrownValue (ofText text)
  | branch {inner : List (κ × ν)} : inner ≠ [] → Grown inner → GrownValue (ofEntries inner)

namespace Grown

variable {segment : String} {entries : List (κ × ν)}

/-- A grown list stays one with a new key in front. -/
theorem cons {name : String} {value : ν} {rest : List (κ × ν)}
    (hkey : key ν name ∉ rest.map Prod.fst) (hvalue : GrownValue value) (hrest : Grown rest) :
    Grown ((key ν name, value) :: rest) := by
  cases hvalue with
  | leaf => exact .leaf hkey hrest
  | branch hne hinner => exact .branch hkey hne hinner hrest

/-- What something was put into is not empty. -/
theorem put_ne_nil (segment : String) (value : ν) (entries : List (κ × ν)) :
    Nested.put segment value entries ≠ [] := by
  cases entries with
  | nil => exact List.cons_ne_nil _ _
  | cons entry rest =>
      obtain ⟨k, v⟩ := entry
      rw [Nested.put]
      split <;> exact List.cons_ne_nil _ _

variable [Lawful κ ν]

/-- A grown list stays one when a grown value is put into it. -/
theorem put (h : Grown entries) {value : ν} (hvalue : GrownValue value) :
    Grown (Nested.put segment value entries) := by
  have hfirst {name : String} {old : ν} {rest : List (κ × ν)}
      (hkey : key ν name ∉ rest.map Prod.fst)
      (hold : GrownValue old) (hrest : Grown rest) (hput : Grown (Nested.put segment value rest)) :
      Grown (Nested.put segment value ((key ν name, old) :: rest)) := by
    rw [Nested.put]
    split
    · exact .cons hkey hvalue hrest
    · rename_i hne
      refine .cons (fun hmem => ?_) hold hput
      rcases mem_keys_put.1 hmem with heq | hmem
      · exact hne (Lawful.isKey_iff.2 heq)
      · exact hkey hmem
  induction h with
  | nil => exact .cons List.not_mem_nil hvalue .nil
  | leaf hkey hrest ih => exact hfirst hkey (.leaf _) hrest ih
  | branch hkey hne hinner hrest _ ih => exact hfirst hkey (.branch hne hinner) hrest ih

/-- What is found at a key was put there, and so it is open to changes. -/
theorem inside (h : Grown entries) (segment : String) :
    closed (Nested.find? segment entries) = false ∧
      Grown (Nested.inside (Nested.find? segment entries)) := by
  induction h with
  | nil => exact ⟨rfl, .nil⟩
  | @leaf name text rest _ _ ih =>
      rw [Nested.find?]
      split
      · have hinside : Nested.inside (some (ofText text : ν)) = [] := by simp [Nested.inside]
        exact ⟨by simp [closed], hinside ▸ .nil⟩
      · exact ih
  | @branch name inner rest _ _ hinner _ _ ih =>
      rw [Nested.find?]
      split
      · have hinside : Nested.inside (some (ofEntries inner : ν)) = inner := by simp [Nested.inside]
        exact ⟨by simp [closed], hinside.symm ▸ hinner⟩
      · exact ih

/-- **A text is set in a grown tree, which stays grown.** -/
theorem exists_set (h : Grown entries) (text : String) {path : List String} (hpath : path ≠ []) :
    ∃ entries' changed, Nested.set text path entries = .ok (entries', changed) ∧ entries' ≠ [] ∧
      Grown entries' := by
  induction path generalizing entries with
  | nil => exact absurd rfl hpath
  | cons segment more ih =>
      cases more with
      | nil => exact ⟨_, _, rfl, put_ne_nil _ _ _, h.put (.leaf text)⟩
      | cons next more =>
          obtain ⟨hopen, hinside⟩ := h.inside segment
          obtain ⟨inner, changed, hset, hne, hinner⟩ := ih hinside (List.cons_ne_nil _ _)
          exact ⟨_, changed, set_cons_eq_ok.2 ⟨hopen, inner, hset, rfl⟩, put_ne_nil _ _ _,
            h.put (.branch hne hinner)⟩

end Grown

end ConfigGraft.Nested
