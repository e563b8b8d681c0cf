import ConfigGraft.Association

/-!
# Tables of properties

A properties document gives keys a text value each. Its entries are kept in the order of the code
points of their keys, so a table is determined by what it says about each key.

## Main results

* `Properties.value?_insert` — the last value that a key was given counts;
* `Properties.value?_ext` — tables that say the same about every key are the same.
-/

namespace ConfigGraft

/-- Keys with a value each, in ascending order of the keys. -/
structure Properties where
  entries : List (String × String) := []
  sorted : (entries.map Prod.fst).Pairwise (· < ·) := by exact List.Pairwise.nil

namespace Properties

/-- No keys are in order. -/
theorem sorted_nil : (([] : List (String × String)).map Prod.fst).Pairwise (· < ·) :=
  List.Pairwise.nil

/-- The table without any key. -/
def empty : Properties := ⟨[], sorted_nil⟩

/-- Gives a key a value, at its place in the order. -/
def insertEntry (key value : String) : List (String × String) → List (String × String)
  | [] => [(key, value)]
  | (other, v) :: rest =>
    if key < other then (key, value) :: (other, v) :: rest
    else if key = other then (key, value) :: rest
    else (other, v) :: insertEntry key value rest

private theorem mem_insertEntry_keys {x key value : String} {es : List (String × String)} :
    x ∈ (insertEntry key value es).map Prod.fst ↔ x = key ∨ x ∈ es.map Prod.fst := by
  induction es with
  | nil => simp [insertEntry]
  | cons e rest ih =>
    obtain ⟨other, v⟩ := e
    rw [insertEntry]
    split
    · simp
    · split
      · rename_i h; subst h; simp
      · simp only [List.map_cons, List.mem_cons, ih]
        constructor <;> (intro h; rcases h with h | h | h <;> simp [h])

private theorem gt_of_not_lt_of_ne {a b : String} (h : ¬ a < b) (hne : a ≠ b) : b < a := by
  rcases Std.lt_trichotomy a b with h' | h' | h'
  · exact absurd h' h
  · exact absurd h' hne
  · exact h'

/-- Keys stay in order when one is inserted. -/
theorem insertEntry_pairwise {key value : String} {es : List (String × String)}
    (h : (es.map Prod.fst).Pairwise (· < ·)) :
    ((insertEntry key value es).map Prod.fst).Pairwise (· < ·) := by
  induction es with
  | nil => simp [insertEntry]
  | cons e rest ih =>
    obtain ⟨other, v⟩ := e
    rw [List.map_cons] at h
    have hrest := List.pairwise_cons.1 h
    rw [insertEntry]
    split
    · rename_i hlt
      refine List.pairwise_cons.2 ⟨?_, h⟩
      intro x hx
      rcases List.mem_cons.1 hx with rfl | hx
      · exact hlt
      · exact String.lt_trans hlt (hrest.1 x hx)
    · split
      · rename_i heq; subst heq; exact h
      · rename_i hnlt hne
        refine List.pairwise_cons.2 ⟨?_, ih hrest.2⟩
        intro x hx
        rcases mem_insertEntry_keys.1 hx with rfl | hx
        · exact gt_of_not_lt_of_ne hnlt hne
        · exact hrest.1 x hx

/-- The table with a value given to a key, in place of an earlier one. -/
def insert (key value : String) (table : Properties) : Properties where
  entries := insertEntry key value table.entries
  sorted := insertEntry_pairwise table.sorted

/-- The value of a key. -/
def value? (table : Properties) (key : String) : Option String := table.entries.lookup key

/-- The key that was inserted has the new value, and any other its old one. -/
theorem lookup_insertEntry (key value other : String) (es : List (String × String)) :
    (insertEntry key value es).lookup other =
      if other = key then some value else es.lookup other := by
  induction es with
  | nil => rw [insertEntry, Association.lookup_cons_eq]
  | cons e rest ih =>
    obtain ⟨k, v⟩ := e
    rw [insertEntry]
    split
    · rw [Association.lookup_cons_eq]
    · split
      · rename_i heq
        subst heq
        rw [Association.lookup_cons_eq, Association.lookup_cons_eq]
        split <;> rfl
      · rename_i hne
        rw [Association.lookup_cons_eq, Association.lookup_cons_eq, ih]
        by_cases h : other = k
        · rw [if_pos h, if_pos h, if_neg (h ▸ Ne.symm hne)]
        · rw [if_neg h, if_neg h]

/-- The last value that a key was given counts. -/
theorem value?_insert (key value other : String) (table : Properties) :
    (table.insert key value).value? other =
      if other = key then some value else table.value? other :=
  lookup_insertEntry key value other table.entries

private theorem mem_keys_of_lookup {key value : String} {es : List (String × String)}
    (h : es.lookup key = some value) : key ∈ es.map Prod.fst := by
  induction es with
  | nil => cases h
  | cons e rest ih =>
    obtain ⟨k, v⟩ := e
    rw [Association.lookup_cons_eq] at h
    by_cases hk : key = k
    · exact List.mem_cons.2 (Or.inl hk)
    · rw [if_neg hk] at h
      exact List.mem_cons_of_mem _ (ih h)

private theorem lookup_eq_none_of_lt {key : String} {es : List (String × String)}
    (h : ∀ other ∈ es.map Prod.fst, key < other) : es.lookup key = none := by
  cases hl : es.lookup key with
  | none => rfl
  | some v => exact absurd (h key (mem_keys_of_lookup hl)) (String.lt_irrefl key)

/-- Entries in order that say the same about every key are the same. -/
theorem eq_of_lookup {es fs : List (String × String)}
    (hes : (es.map Prod.fst).Pairwise (· < ·)) (hfs : (fs.map Prod.fst).Pairwise (· < ·))
    (h : ∀ key, es.lookup key = fs.lookup key) : es = fs := by
  induction es generalizing fs with
  | nil =>
    cases fs with
    | nil => rfl
    | cons f fs =>
      have := h f.1
      rw [Association.lookup_cons_eq, if_pos rfl] at this
      cases this
  | cons e es ih =>
    obtain ⟨k, v⟩ := e
    rw [List.map_cons] at hes
    obtain ⟨hk, hes_rest⟩ := List.pairwise_cons.1 hes
    cases fs with
    | nil =>
      have := h k
      rw [Association.lookup_cons_eq, if_pos rfl] at this
      cases this
    | cons f fs =>
      obtain ⟨l, w⟩ := f
      rw [List.map_cons] at hfs
      obtain ⟨hl, hfs_rest⟩ := List.pairwise_cons.1 hfs
      have atk := h k
      have atl := h l
      rw [Association.lookup_cons_eq, Association.lookup_cons_eq] at atk atl
      by_cases hkl : k = l
      · subst hkl
        rw [if_pos rfl, if_pos rfl] at atk
        obtain rfl := Option.some.inj atk
        rw [ih hes_rest hfs_rest]
        intro x
        have hx := h x
        rw [Association.lookup_cons_eq, Association.lookup_cons_eq] at hx
        by_cases hxk : x = k
        · subst hxk
          rw [lookup_eq_none_of_lt hk, lookup_eq_none_of_lt hl]
        · rwa [if_neg hxk, if_neg hxk] at hx
      · rw [if_pos rfl, if_neg hkl] at atk
        rw [if_neg (Ne.symm hkl), if_pos rfl] at atl
        have h1 := hl k (mem_keys_of_lookup atk.symm)
        have h2 := hk l (mem_keys_of_lookup atl)
        exact absurd (String.lt_trans h1 h2) (String.lt_irrefl l)

/-- A table is its entries. -/
theorem ext_entries {s t : Properties} (h : s.entries = t.entries) : s = t := by
  cases s; cases t; simp_all

/-- Tables that say the same about every key are the same. -/
theorem value?_ext {s t : Properties} (h : ∀ key, s.value? key = t.value? key) : s = t :=
  ext_entries (eq_of_lookup s.sorted t.sorted h)

instance : DecidableEq Properties := fun s t =>
  decidable_of_iff (s.entries = t.entries) ⟨ext_entries, fun h => h ▸ rfl⟩

end Properties

end ConfigGraft
