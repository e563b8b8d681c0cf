import ConfigGraft.Proofs.Document.Tree
import ConfigGraft.Proofs.Document.Updates
import ConfigGraft.Proofs.Nested.Again

/-!
# Setting the same updates again

Once a list of updates is set in a document, it can be set in what came of it, and that is what
comes of it again. The updates may be in conflict with each other, and so make differences the
second time too; in the end they have made up for them.

## Main results

* `Document.Spells.setAll_eq_ok`, `Document.Spells.setAll_of_passable` — what updates make of a
  tree, and when they can be set;
* `Document.setAll_again` — **setting the same updates again changes nothing.**
-/

namespace ConfigGraft

/-! ### Tables of properties -/

/-- Puts entries into a table, from the first to the last. -/
def Properties.insertAll (entries : List (String × String)) (table : Properties) : Properties :=
  entries.foldl (fun table entry => table.insert entry.1 entry.2) table

/-- Of several entries with a key, the last one counts. -/
theorem Properties.value?_insertAll (entries : List (String × String)) (table : Properties)
    (key : String) :
    (table.insertAll entries).value? key =
      (entries.reverse.lookup key).or (table.value? key) := by
  induction entries generalizing table with
  | nil => rfl
  | cons entry rest ih =>
      obtain ⟨k, v⟩ := entry
      have hrest : (table.insertAll ((k, v) :: rest)).value? key =
          ((table.insert k v).insertAll rest).value? key := rfl
      rw [hrest, ih, value?_insert, List.reverse_cons, List.lookup_append, Option.or_assoc,
        Association.lookup_cons_eq]
      split <;> rfl

/-- Putting the same entries into a table again changes nothing. -/
theorem Properties.insertAll_insertAll (entries : List (String × String)) (table : Properties) :
    (table.insertAll entries).insertAll entries = table.insertAll entries := by
  apply value?_ext
  intro key
  rw [value?_insertAll, value?_insertAll, ← Option.or_assoc, Option.or_self]

namespace Document

/-- Updates of a table of properties put their texts at whole paths. -/
theorem setAll_properties (updates : List (KeyPath × String)) (table : Properties) :
    ∃ dirty, (Document.properties table).setAll updates =
      .ok (.properties (table.insertAll (updates.map fun u => (u.1.text, u.2))), dirty) := by
  induction updates generalizing table with
  | nil => exact ⟨false, rfl⟩
  | cons update rest ih =>
      obtain ⟨dirty, hrest⟩ := ih (table.insert update.1.text update.2)
      exact ⟨_, setAll_cons_eq_ok.2 ⟨_, _, dirty, rfl, hrest, rfl⟩⟩

/-! ### Trees -/

section

variable {κ ν : Type} [Nested κ ν] {make : List (κ × ν) → Document}

/-- Updates can be set in a tree where no closed mapping is in the way of any of them. -/
theorem Spells.setAll_of_passable [Nested.Lawful κ ν] (hspells : Spells make)
    {updates : List (KeyPath × String)} {es : List (κ × ν)}
    (h : ∀ update ∈ updates, Nested.Passable update.1.segments es) :
    ∃ dirty, (make es).setAll updates =
      .ok (make (Nested.assignAll (updates.map fun u => (u.1.segments, u.2)) es), dirty) := by
  induction updates generalizing es with
  | nil => exact ⟨false, rfl⟩
  | cons update rest ih =>
      obtain ⟨hupdate, hrest⟩ := List.forall_mem_cons.1 h
      obtain ⟨changed, hset⟩ := Nested.set_of_passable update.2 hupdate
      obtain ⟨more, hmore⟩ := ih fun later hmem =>
        Nested.passable_assign (hrest later hmem) update.2 update.1.segments
      exact ⟨_, setAll_cons_eq_ok.2
        ⟨_, changed, more, hspells.set_eq_ok_iff.2 ⟨_, hset, rfl⟩, hmore, rfl⟩⟩

/-- What updates make of a tree, if they can be set. No closed mapping is in the way of them then,
and none is afterwards. -/
theorem Spells.setAll_eq_ok [Nested.Lawful κ ν] (hspells : Spells make)
    {updates : List (KeyPath × String)} {es : List (κ × ν)} {last : Document} {dirty : Bool}
    (h : (make es).setAll updates = .ok (last, dirty)) :
    last = make (Nested.assignAll (updates.map fun u => (u.1.segments, u.2)) es) ∧
      ∀ update ∈ updates, Nested.Passable update.1.segments
        (Nested.assignAll (updates.map fun u => (u.1.segments, u.2)) es) := by
  induction updates generalizing es dirty with
  | nil =>
      cases h
      exact ⟨rfl, nofun⟩
  | cons update rest ih =>
      obtain ⟨next, changed, more, hset, hrest, -⟩ := setAll_cons_eq_ok.1 h
      obtain ⟨fs, hfs, rfl⟩ := hspells.set_eq_ok_iff.1 hset
      obtain ⟨hupdate, rfl⟩ := Nested.set_eq_ok hfs
      obtain ⟨hlast, hlater⟩ := ih hrest
      exact ⟨hlast, List.forall_mem_cons.2 ⟨Nested.passable_assignAll hupdate _, hlater⟩⟩

end

/-- **Setting the same updates again changes nothing.** -/
theorem setAll_again {document last : Document} {updates : List (KeyPath × String)} {dirty : Bool}
    (h : document.setAll updates = .ok (last, dirty)) :
    ∃ again, last.setAll updates = .ok (last, again) := by
  cases document using cases_tree with
  | @tree κ ν _ _ make hspells es =>
      obtain ⟨rfl, hpassable⟩ := hspells.setAll_eq_ok h
      obtain ⟨again, hagain⟩ := hspells.setAll_of_passable hpassable
      rw [Nested.assignAll_assignAll] at hagain
      exact ⟨again, hagain⟩
  | table t =>
      obtain ⟨dirty', hset⟩ := setAll_properties updates t
      rw [hset] at h
      cases h
      obtain ⟨again, hagain⟩ := setAll_properties updates
        (t.insertAll (updates.map fun u => (u.1.text, u.2)))
      rw [Properties.insertAll_insertAll] at hagain
      exact ⟨again, hagain⟩

end Document

end ConfigGraft
