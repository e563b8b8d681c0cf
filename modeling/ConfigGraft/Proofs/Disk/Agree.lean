import ConfigGraft.Proofs.Disk.Shape

/-!
# Disks that agree

Two disks of the same shape agree off some places if they hold the same at all others. The places
may hold files with whatever content, as that of a journal does. What is done to one of the disks
has the same effect on the other, for a name leads to the same place in both: making directories and
writing files ends in the same way, and leaves disks that agree off the same places.

## Main results

* `Disk.AgreeOff.find_eq_ok` — a name that leads off these places leads to the same file;
* `Disk.AgreeOff.makeDirectories`, `Disk.AgreeOff.writeBytes` — **what is done to both disks leaves
  them in agreement.**
-/

namespace ConfigGraft.Disk

variable {d e f : Disk}

/-! ### Disks of the same shape -/

/-- Having the same shape goes both ways. -/
theorem SameShape.symm (h : SameShape d e) : SameShape e d :=
  ⟨h.here.symm, fun place => (h.kind place).symm⟩

/-- Disks of the same shape have their directories at the same places. -/
theorem SameShape.directory_iff (h : SameShape d e) (place : Location) :
    e.node? place = some .directory ↔ d.node? place = some .directory := by
  have hiff (disk : Disk) : disk.node? place = some .directory ↔
      (disk.node? place).map Node.isDirectory = some true := by
    rcases disk.node? place with - | - | content <;> simp [Node.isDirectory]
  rw [hiff, hiff, h.kind]

/-- A name leads to a directory on both disks or on none. -/
theorem SameShape.isDirectory_eq (h : SameShape d e) (name : String) :
    e.isDirectory name = d.isDirectory name := by
  have hiff (disk : Disk) : disk.isDirectory name = true ↔
      ∃ place, disk.locate name = .ok place ∧ disk.node? place = some .directory := by
    simp only [← find_eq_ok, isDirectory]
    constructor
    · intro hdirectory
      split at hdirectory
      · rename_i place hfind
        exact ⟨place, hfind⟩
      · cases hdirectory
    · rintro ⟨place, hfind⟩
      rw [hfind]
  rw [Bool.eq_iff_iff, hiff, hiff]
  simp only [h.locate_eq, h.directory_iff]

/-- A name to write a file by is one on both disks, and leads to the same place. -/
theorem SameShape.target_eq (h : SameShape d e) (name : String) :
    e.target name = d.target name := by
  unfold target start
  rw [h.here, h.walk_eq, h.locate_eq]
  split
  · rfl
  · rcases d.locate name with fault | place
    · rfl
    · have hiff := h.directory_iff place
      rcases he : e.node? place with - | - | content <;>
        rcases hd : d.node? place with - | - | content' <;> simp_all

/-- What stands at a location after a node was put somewhere; the root is always a directory. -/
theorem node?_put_eq (disk : Disk) (place : Location) (node : Node) (other : Location) :
    (disk.put place node).node? other =
      if other = place ∧ other ≠ [] then some node else disk.node? other := by
  by_cases hplace : place = []
  · subst hplace
    by_cases hother : other = []
    · simp [hother]
    · simp [node?, put, Association.lookup_put, hother]
  · rw [node?_put hplace]
    by_cases hother : other = place
    · simp [hother, hplace]
    · simp [hother]

/-- Putting the same at the same place keeps the shapes the same. -/
theorem SameShape.put (h : SameShape d e) (place : Location) (node : Node) :
    SameShape (d.put place node) (e.put place node) := by
  refine ⟨h.here, fun other => ?_⟩
  rw [node?_put_eq, node?_put_eq]
  split
  · rfl
  · exact h.kind other

/-! ### Agreement -/

/-- Two disks **agree off** some places if these hold the same kind of thing in both, and all other
places the same thing. Where no place is left out, the disks are the same. -/
structure AgreeOff (off : Location → Prop) (d e : Disk) : Prop where
  shape : SameShape d e
  node?_eq : ∀ place, ¬ off place → e.node? place = d.node? place
  eq_of_none : (∀ place, ¬ off place) → e = d

namespace AgreeOff

variable {off : Location → Prop}

/-- A disk agrees with itself. -/
theorem refl (d : Disk) : AgreeOff off d d := ⟨.refl d, fun _ _ => rfl, fun _ => rfl⟩

/-- Agreeing goes both ways. -/
theorem symm (h : AgreeOff off d e) : AgreeOff off e d :=
  ⟨h.shape.symm, fun place hplace => (h.node?_eq place hplace).symm,
    fun hnone => (h.eq_of_none hnone).symm⟩

/-- Agreeing is passed on. -/
theorem trans (h : AgreeOff off d e) (h' : AgreeOff off e f) : AgreeOff off d f :=
  ⟨h.shape.trans h'.shape,
    fun place hplace => (h'.node?_eq place hplace).trans (h.node?_eq place hplace),
    fun hnone => (h'.eq_of_none hnone).trans (h.eq_of_none hnone)⟩

/-- A name that leads off the places leads to the same file in both disks. -/
theorem find_eq_ok (h : AgreeOff off d e) {name : String}
    (hoff : ∀ place, d.locate name = .ok place → ¬ off place) (place : Location) (node : Node) :
    e.find name = .ok (place, node) ↔ d.find name = .ok (place, node) := by
  rw [Disk.find_eq_ok, Disk.find_eq_ok, h.shape.locate_eq]
  refine and_congr_right fun hplace => ?_
  rw [h.node?_eq place (hoff place hplace)]

/-! ### Doing the same to both -/

/-- Putting the same at the same place keeps the disks in agreement. -/
theorem put (h : AgreeOff off d e) (place : Location) (node : Node) :
    AgreeOff off (d.put place node) (e.put place node) := by
  refine ⟨h.shape.put place node, fun other hother => ?_, fun hnone => ?_⟩
  · rw [node?_put_eq, node?_put_eq, h.node?_eq other hother]
  · rw [h.eq_of_none hnone]

/-- A directory is made in both disks, or in neither of them for the same reason. -/
theorem makeDirectory (h : AgreeOff off d e) (name : String) :
    (∃ d' e', d.makeDirectory name = .ok d' ∧ e.makeDirectory name = .ok e' ∧ AgreeOff off d' e') ∨
      ∃ fault, d.makeDirectory name = .error fault ∧ e.makeDirectory name = .error fault := by
  unfold Disk.makeDirectory
  rw [h.shape.locate_eq]
  rcases d.locate name with fault | place
  · exact .inr ⟨fault, rfl, rfl⟩
  · have hsome := h.shape.isSome_node? place
    rcases hd : d.node? place with - | node <;> rcases he : e.node? place with - | node'
    · exact .inl ⟨_, _, by simp only [hd], by simp only [he], h.put place .directory⟩
    · simp [hd, he] at hsome
    · simp [hd, he] at hsome
    · exact .inr ⟨.exists, by simp only [hd], by simp only [he]⟩

/-- Making directories upward fails on both disks or on none, and keeps them in agreement. -/
theorem makeDirectoriesUp (bound : Nat) (h : AgreeOff off d e) (name : String) :
    (e.makeDirectoriesUp bound name).2 = (d.makeDirectoriesUp bound name).2 ∧
      AgreeOff off (d.makeDirectoriesUp bound name).1 (e.makeDirectoriesUp bound name).1 := by
  induction bound generalizing d e name with
  | zero => exact ⟨rfl, h⟩
  | succ bound ih =>
      rw [Disk.makeDirectoriesUp, Disk.makeDirectoriesUp]
      split
      · exact ⟨rfl, h⟩
      · rcases h.makeDirectory name with ⟨d', e', hd, he, hmade⟩ | ⟨fault, hd, he⟩
        · rw [hd, he]
          exact ⟨rfl, hmade⟩
        · rw [hd, he]
          cases fault with
          | notFound =>
              dsimp only
              cases FileName.parent? name with
              | none => exact ⟨rfl, h⟩
              | some up =>
                  -- The directories above are made first, and then the one that is asked for.
                  dsimp only
                  obtain ⟨hfault, hup⟩ := ih h up
                  generalize d.makeDirectoriesUp bound up = x at hfault hup ⊢
                  generalize e.makeDirectoriesUp bound up = y at hfault hup ⊢
                  obtain ⟨⟨d₁, fault?⟩, e₁, fault?'⟩ := x, y
                  obtain rfl : fault?' = fault? := hfault
                  cases fault?' with
                  | some fault => exact ⟨rfl, hup⟩
                  | none =>
                      dsimp only at hup ⊢
                      rcases hup.makeDirectory name with
                        ⟨d', e', hd', he', hmade⟩ | ⟨fault, hd', he'⟩
                      · rw [hd', he']
                        exact ⟨rfl, hmade⟩
                      · rw [hd', he']
                        dsimp only
                        rw [hup.shape.isDirectory_eq]
                        exact ⟨rfl, hup⟩
          | _ =>
              dsimp only
              rw [h.shape.isDirectory_eq]
              exact ⟨rfl, h⟩

/-- **Making directories in both disks leaves them in agreement,** and ends in the same way. -/
theorem makeDirectories (h : AgreeOff off d e) (name : String) :
    (e.makeDirectories name).2 = (d.makeDirectories name).2 ∧
      AgreeOff off (d.makeDirectories name).1 (e.makeDirectories name).1 :=
  makeDirectoriesUp _ h name

/-- **Writing a file to both disks leaves them in agreement,** or fails for the same reason. -/
theorem writeBytes (h : AgreeOff off d e) (name : String) (content : ByteArray) :
    (∃ d' e', d.writeBytes name content = .ok d' ∧ e.writeBytes name content = .ok e' ∧
      AgreeOff off d' e') ∨
      ∃ fault, d.writeBytes name content = .error fault ∧
        e.writeBytes name content = .error fault := by
  unfold Disk.writeBytes
  rw [h.shape.target_eq]
  rcases d.target name with fault | place
  · exact .inr ⟨fault, rfl, rfl⟩
  · exact .inl ⟨_, _, rfl, rfl, h.put place _⟩

end AgreeOff

end ConfigGraft.Disk
