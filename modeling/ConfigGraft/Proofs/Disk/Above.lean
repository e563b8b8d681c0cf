import ConfigGraft.Proofs.Disk.Parent

/-!
# Directories one by one

Directories are made one by one, from the top down, and each has a name that the wanted name leads
on from. So whatever making one such directory keeps, making all of them keeps.

## Main results

* `Disk.above_parent?` — the name of the parent directory is above a name;
* `Disk.makeDirectories_induction` — **what each single directory keeps is kept by all of them.**
-/

namespace ConfigGraft.Disk

variable {disk disk' : Disk} {name : String} {place : Location}

/-! ### Names that lead up -/

/-- A name is one of those **above** another: it is empty, or the root, or made of some of its first
parts. -/
def Above (name other : String) : Prop :=
  other = "" ∨ other = "/" ∨
    FileName.parts other <+: FileName.parts name ∧ ∀ disk : Disk, disk.start other = disk.start name

/-- A name is above itself, the relation not being strict. -/
theorem above_self (name : String) : Above name name := .inr (.inr ⟨List.prefix_rfl, fun _ => rfl⟩)

/-- The name of the parent directory is above a name. -/
theorem above_parent? {up : String} (h : FileName.parent? name = some up) : Above name up := by
  rcases FileName.parent?_eq_some h with rfl | rfl | ⟨kept, part, rest, hne, rfl, hparts⟩
  · exact .inl rfl
  · exact .inr (.inl rfl)
  by_cases hempty : "/".intercalate kept = ""
  · exact .inl hempty
  have hfront := FileName.parts_intercalate_front hne hparts
  exact .inr (.inr ⟨⟨part :: rest, by rw [hfront, hparts]⟩,
    start_intercalate_front hne hempty hparts⟩)

/-- The parent directory of what is above a name is above it too. -/
theorem Above.parent {other up : String} (h : Above name other)
    (hup : FileName.parent? other = some up) : Above name up := by
  rcases h with rfl | rfl | ⟨hparts, hstart⟩
  · have hnone : FileName.parent? "" = none := by decide
    rw [hnone] at hup
    cases hup
  · have hnone : FileName.parent? "/" = none := by decide
    rw [hnone] at hup
    cases hup
  · rcases above_parent? hup with rfl | rfl | ⟨hparts', hstart'⟩
    · exact .inl rfl
    · exact .inr (.inl rfl)
    · exact .inr (.inr ⟨hparts'.trans hparts, fun disk => (hstart' disk).trans (hstart disk)⟩)

/-! ### Directories one by one -/

/-- Making directories upward keeps what making one of them keeps. It is the recursion over the
parents. -/
theorem makeDirectoriesUp_induction {motive : Disk → Prop}
    (hmake : ∀ {d d' : Disk} {other : String}, Above name other → d.makeDirectory other = .ok d' →
      motive d → motive d')
    (bound : Nat) {other : String} (habove : Above name other) (h : motive disk) :
    motive (disk.makeDirectoriesUp bound other).1 := by
  induction bound generalizing disk other with
  | zero => exact h
  | succ bound ih =>
      rw [makeDirectoriesUp]
      split
      · exact h
      · split
        · rename_i hmade
          exact hmake habove hmade h
        · split
          · exact h
          · rename_i up hup
            have hroom := ih (habove.parent hup) h
            split
            · rename_i heq
              rwa [heq] at hroom
            · rename_i heq
              rw [heq] at hroom
              split
              · rename_i hmade
                exact hmake habove hmade hroom
              · exact hroom
        · exact h

/-- **What each single directory keeps is kept by all of them,** even where one cannot be made. -/
theorem makeDirectories_induction {motive : Disk → Prop}
    (hmake : ∀ {d d' : Disk} {other : String}, Above name other → d.makeDirectory other = .ok d' →
      motive d → motive d')
    {other : String} (habove : Above name other) (h : motive disk) :
    motive (disk.makeDirectories other).1 := makeDirectoriesUp_induction hmake _ habove h

/-- A directory can be made where a name leads to a place at which nothing stands. -/
theorem makeDirectory_eq_ok : disk.makeDirectory name = .ok disk' ↔
    ∃ place, disk.locate name = .ok place ∧ disk.node? place = none ∧
      disk' = disk.put place .directory := by
  rw [makeDirectory]
  rcases disk.locate name with fault | place
  · simp
  · rcases hnode : disk.node? place with - | node
    · simp [hnode, eq_comm]
    · simp [hnode]

end ConfigGraft.Disk
