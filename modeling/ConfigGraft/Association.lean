/-!
# Association lists

Keys with a value each, in the order in which the keys first got one. `List.lookup` reads such a
list, and `put` gives a key a value.

## Main results

* `Association.lookup_put` — the last value that a key was given counts.
-/

namespace ConfigGraft.Association

variable {κ ν : Type} [BEq κ]

/-- Gives a key a value, in place of an earlier one or else at the end. -/
def put (key : κ) (value : ν) : List (κ × ν) → List (κ × ν)
  | [] => [(key, value)]
  | (k, v) :: rest => if k == key then (key, value) :: rest else (k, v) :: put key value rest

variable [LawfulBEq κ]

/-- A key that is not in front gets its value behind. -/
theorem put_append {key : κ} (value : ν) {front : List (κ × ν)} (h : key ∉ front.map Prod.fst)
    (back : List (κ × ν)) : put key value (front ++ back) = front ++ put key value back := by
  induction front with
  | nil => rfl
  | cons e rest ih =>
    obtain ⟨k, v⟩ := e
    rw [List.map_cons, List.mem_cons, not_or] at h
    have hne : ¬ (k == key) = true := fun heq => h.1 (beq_iff_eq.1 heq).symm
    rw [List.cons_append, put, if_neg hne, ih h.2, List.cons_append]

/-- A key that is new gets its value at the end. -/
theorem put_of_not_mem {key : κ} (value : ν) {es : List (κ × ν)} (h : key ∉ es.map Prod.fst) :
    put key value es = es ++ [(key, value)] := by
  have hput := put_append value h []
  rwa [List.append_nil, put] at hput

/-- A key that is last keeps its place. -/
theorem put_last {key : κ} (value : ν) {es : List (κ × ν)} (h : key ∉ es.map Prod.fst) (old : ν) :
    put key value (es ++ [(key, old)]) = es ++ [(key, value)] := by
  rw [put_append value h, put, if_pos (beq_iff_eq.2 rfl)]

/-- A key that is not there has no value. -/
theorem lookup_eq_none {key : κ} {es : List (κ × ν)} (h : key ∉ es.map Prod.fst) :
    es.lookup key = none := by
  refine List.lookup_eq_none_iff.2 fun e hmem => bne_iff_ne.2 ?_
  rintro rfl
  exact h (List.mem_map_of_mem hmem)

variable [DecidableEq κ]

/-- The value of a key is that of the first entry, if it is for the key, and else that of the rest.
-/
theorem lookup_cons_eq (k : κ) (v : ν) (rest : List (κ × ν)) (other : κ) :
    ((k, v) :: rest).lookup other = if other = k then some v else rest.lookup other := by
  rw [List.lookup_cons]
  by_cases h : other = k
  · rw [if_pos h, beq_iff_eq.2 h]
  · rw [if_neg h, beq_eq_false_iff_ne.2 h]

/-- The last value that a key was given counts. -/
theorem lookup_put (key : κ) (value : ν) (other : κ) (es : List (κ × ν)) :
    (put key value es).lookup other = if other = key then some value else es.lookup other := by
  induction es with
  | nil => rw [put, lookup_cons_eq]
  | cons e rest ih =>
    obtain ⟨k, v⟩ := e
    rw [put]
    by_cases hk : k = key
    · subst hk
      rw [if_pos (beq_iff_eq.2 rfl), lookup_cons_eq, lookup_cons_eq]
      split <;> rfl
    · rw [if_neg (mt beq_iff_eq.1 hk), lookup_cons_eq, lookup_cons_eq, ih]
      by_cases h : other = k
      · rw [if_pos h, if_pos h, if_neg (h ▸ hk)]
      · rw [if_neg h, if_neg h]

end ConfigGraft.Association
