/-!
# Missing names

The names of required variables for which no value was found, gathered during a run. They are
kept once each, in the order of their code points, which is the order in which they are reported.

## Main results

* `MissingNames.mem_record` — what recording a name adds;
* `MissingNames.record_fst_eq_true_iff` — recording a name tells whether it is new;
* `MissingNames.record_of_mem` — recording a name again changes nothing;
* `MissingNames.ext_mem` — collections with the same members are the same.
-/

namespace ConfigGraft

/-- Names in ascending order of their code points, without repetition. -/
structure MissingNames where
  names : List String := []
  sorted : names.Pairwise (· < ·) := by exact List.Pairwise.nil

namespace MissingNames

/-- Puts a name at its place in an ascending list, unless it is there already. -/
def insertName (name : String) : List String → List String
  | [] => [name]
  | other :: rest =>
    if name < other then name :: other :: rest
    else if name = other then other :: rest
    else other :: insertName name rest

/-- The members of a list after a name was put into it. -/
@[simp] theorem mem_insertName {x name : String} {names : List String} :
    x ∈ insertName name names ↔ x = name ∨ x ∈ names := by
  induction names with
  | nil => simp [insertName]
  | cons other rest ih =>
    rw [insertName]
    split
    · simp
    · split
      · rename_i h; subst h; simp
      · simp only [List.mem_cons, ih]
        constructor <;> (intro h; rcases h with h | h | h <;> simp [h])

/-- Of two different texts one is the smaller. -/
private theorem lt_of_not_lt_of_ne {a b : String} (h : ¬ a < b) (hne : a ≠ b) : b < a := by
  rcases Std.lt_trichotomy a b with h' | h' | h'
  · exact absurd h' h
  · exact absurd h' hne
  · exact h'

/-- An ascending list stays ascending when a name is put into it, which carries the invariant of the
collection. -/
theorem insertName_pairwise {name : String} {names : List String}
    (h : names.Pairwise (· < ·)) : (insertName name names).Pairwise (· < ·) := by
  induction names with
  | nil => simp [insertName]
  | cons other rest ih =>
    have hrest := (List.pairwise_cons.1 h)
    rw [insertName]
    split
    · rename_i hlt
      refine List.pairwise_cons.2 ⟨?_, h⟩
      intro x hx
      rcases List.mem_cons.1 hx with rfl | hx
      · exact hlt
      · exact String.lt_trans hlt (hrest.1 x hx)
    · split
      · exact h
      · rename_i hnlt hne
        refine List.pairwise_cons.2 ⟨?_, ih hrest.2⟩
        intro x hx
        rcases mem_insertName.1 hx with rfl | hx
        · exact lt_of_not_lt_of_ne hnlt hne
        · exact hrest.1 x hx

/-- The list without names is ascending. -/
theorem sorted_nil : ([] : List String).Pairwise (· < ·) := List.Pairwise.nil

/-- No name at all. -/
def none : MissingNames := ⟨[], sorted_nil⟩

/-- The names with one more. -/
def add (name : String) (m : MissingNames) : MissingNames where
  names := insertName name m.names
  sorted := insertName_pairwise m.sorted

/-- Whether a name is among the names. -/
def contains (m : MissingNames) (name : String) : Bool := m.names.contains name

def size (m : MissingNames) : Nat := m.names.length

def isEmpty (m : MissingNames) : Bool := m.names.isEmpty

/-- Records a name, and says whether it is a new one. -/
def record (name : String) (m : MissingNames) : Bool × MissingNames :=
  (!m.contains name, m.add name)

instance : Membership String MissingNames := ⟨fun m name => name ∈ m.names⟩

/-- Recording a name adds it and nothing else. -/
theorem mem_record {x name : String} {m : MissingNames} :
    x ∈ (m.record name).2 ↔ x = name ∨ x ∈ m :=
  mem_insertName

/-- Recording a name tells whether it is new. -/
theorem record_fst_eq_true_iff {name : String} {m : MissingNames} :
    (m.record name).1 = true ↔ name ∉ m := by
  rw [record, contains, Bool.not_eq_true', ← Bool.not_eq_true, List.contains_iff_mem]
  rfl

/-- Names in order with the same members are the same. -/
theorem eq_of_mem {xs ys : List String} (hxs : xs.Pairwise (· < ·)) (hys : ys.Pairwise (· < ·))
    (h : ∀ name, name ∈ xs ↔ name ∈ ys) : xs = ys := by
  induction xs generalizing ys with
  | nil =>
    cases ys with
    | nil => rfl
    | cons y ys => exact absurd ((h y).2 List.mem_cons_self) List.not_mem_nil
  | cons x xs ih =>
    obtain ⟨hx, hxs_rest⟩ := List.pairwise_cons.1 hxs
    cases ys with
    | nil => exact absurd ((h x).1 List.mem_cons_self) List.not_mem_nil
    | cons y ys =>
      obtain ⟨hy, hys_rest⟩ := List.pairwise_cons.1 hys
      have hxy : x = y := by
        rcases List.mem_cons.1 ((h x).1 List.mem_cons_self) with hxy | hmem
        · exact hxy
        · rcases List.mem_cons.1 ((h y).2 List.mem_cons_self) with hyx | hmem'
          · exact hyx.symm
          · exact absurd (String.lt_trans (hy x hmem) (hx y hmem')) (String.lt_irrefl y)
      subst hxy
      rw [ih hxs_rest hys_rest]
      intro name
      constructor
      · intro hn
        rcases List.mem_cons.1 ((h name).1 (List.mem_cons_of_mem _ hn)) with rfl | hmem
        · exact absurd (hx name hn) (String.lt_irrefl name)
        · exact hmem
      · intro hn
        rcases List.mem_cons.1 ((h name).2 (List.mem_cons_of_mem _ hn)) with rfl | hmem
        · exact absurd (hy name hn) (String.lt_irrefl name)
        · exact hmem

/-- Collections with the same list of names are the same. -/
theorem ext_names {m n : MissingNames} (h : m.names = n.names) : m = n := by
  cases m; cases n; simp_all

/-- Two collections with the same members are the same. -/
theorem ext_mem {m n : MissingNames} (h : ∀ name, name ∈ m ↔ name ∈ n) : m = n :=
  ext_names (eq_of_mem m.sorted n.sorted h)

/-- Recording a name that is not new changes nothing. -/
theorem record_of_mem {name : String} {m : MissingNames} (h : name ∈ m) :
    m.record name = (false, m) := by
  have hsame : (m.record name).2 = m := by
    refine ext_mem fun x => mem_record.trans (or_iff_right_of_imp ?_)
    rintro rfl
    exact h
  refine Prod.ext (Bool.eq_false_iff.2 fun hnew => ?_) hsame
  exact record_fst_eq_true_iff.1 hnew h

instance : DecidableEq MissingNames := fun m n =>
  decidable_of_iff (m.names = n.names) ⟨ext_names, fun h => h ▸ rfl⟩

end MissingNames

end ConfigGraft
