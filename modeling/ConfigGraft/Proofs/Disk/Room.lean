import ConfigGraft.Proofs.Disk.Agree
import ConfigGraft.Proofs.Disk.Growth

/-!
# Making room

What making directories adds to a disk are directories on the way of the name that they are made
for, and a disk that is a tree stays one. So a file that is written, or that cannot be written,
finds room made for it and nothing else changed.

## Main results

* `Disk.RoomMade` — the disk has changed by new directories on the way of a name;
* `Disk.roomMade_makeDirectories` — **making directories adds nothing else;**
* `Disk.IsTree.writeBytes`, `Disk.IsTree.makeDirectories` — a tree stays a tree.
-/

namespace ConfigGraft.Disk

variable {disk disk' : Disk} {name : String} {place : Location}

/-! ### What is added -/

/-- A name leads to a place on its way. -/
theorem mem_way_of_walk {last : Location} {parts : List String}
    (h : disk.walk place parts = .ok last) : last ∈ way place parts := by
  induction parts generalizing place with
  | nil =>
      cases h
      exact List.mem_cons_self
  | cons part rest ih =>
      obtain ⟨next, hstep, hrest⟩ := walk_cons_eq_ok.1 h
      rw [way, ← next_of_step hstep]
      exact List.mem_cons_of_mem _ (ih hrest)

/-- The way of the first parts of a name is the front of its way. -/
theorem way_front {front parts : List String} (h : front <+: parts) (place : Location) :
    way place front <+: way place parts := by
  induction front generalizing place parts with
  | nil =>
      cases parts with
      | nil => exact List.prefix_rfl
      | cons part rest => exact ⟨_, rfl⟩
  | cons part front ih =>
      obtain ⟨rest, rfl⟩ := h
      rw [List.cons_append, way, way]
      exact List.cons_prefix_cons.2 ⟨rfl, ih (List.prefix_append _ _) _⟩

/-- A disk has changed by **room for a file:** off some places, all that is new are directories on
the way of the file's name. -/
structure RoomMade (off : Location → Prop) (name : String) (d e : Disk) : Prop where
  here : e.here = d.here
  node?_eq_or : ∀ place, ¬ off place → e.node? place = d.node? place ∨
    d.node? place = none ∧ e.node? place = some .directory ∧
      place ∈ way (d.start name) (FileName.parts name)

variable {off : Location → Prop} {d e f : Disk}

/-- Where disks agree, nothing was made. -/
theorem AgreeOff.roomMade (h : AgreeOff off d e) : RoomMade off name d e :=
  ⟨h.shape.here, fun place hplace => .inl (h.node?_eq place hplace)⟩

/-- Directories made in turn on the way of one name are made on its way. -/
theorem RoomMade.trans (h : RoomMade off name d e) (h' : RoomMade off name e f) :
    RoomMade off name d f := by
  have hstart : e.start name = d.start name := by rw [start, start, h.here]
  refine ⟨h'.here.trans h.here, fun place hplace => ?_⟩
  rcases h.node?_eq_or place hplace with hsame | ⟨hnone, hnew, hway⟩ <;>
    rcases h'.node?_eq_or place hplace with hsame' | ⟨hnone', hnew', hway'⟩
  · exact .inl (hsame'.trans hsame)
  · exact .inr ⟨hsame ▸ hnone', hnew', hstart ▸ hway'⟩
  · exact .inr ⟨hnone, hsame'.trans hnew, hway⟩
  · exact .inr ⟨hnone, hnew', hway⟩

/-- **Making directories adds nothing but directories on the way of a name** that they are above. -/
theorem roomMade_makeDirectories {other : String} (habove : Above name other) (d : Disk) :
    RoomMade off name d (d.makeDirectories other).1 := by
  refine makeDirectories_induction ?_ habove (AgreeOff.refl d).roomMade
  intro e e' other habove hmade hroom
  obtain ⟨place, hplace, hnone, rfl⟩ := makeDirectory_eq_ok.1 hmade
  obtain ⟨hne, -, -, hwalk⟩ := locate_eq_ok.1 hplace
  have hroot : other ≠ "/" := by
    rintro rfl
    have hroot : e.has "/" = true := has_root
    obtain ⟨place', hplace', hsome⟩ := has_iff.1 hroot
    obtain rfl := Except.ok.inj (hplace'.symm.trans hplace)
    rw [hnone] at hsome
    cases hsome
  obtain ⟨hparts, hstart⟩ := (habove.resolve_left hne).resolve_left hroot
  have hway : place ∈ way (e.start name) (FileName.parts name) :=
    (way_front hparts _).subset (hstart e ▸ mem_way_of_walk hwalk)
  refine hroom.trans ⟨rfl, fun other' _ => ?_⟩
  rw [node?_put_eq]
  split
  · rename_i hother
    obtain ⟨rfl, -⟩ := hother
    exact .inr ⟨hnone, rfl, hway⟩
  · exact .inl rfl

/-- In a tree no file stands below a directory that is new. -/
theorem RoomMade.no_file_below (h : RoomMade off name d e) (htree : d.IsTree)
    (hoff : ∀ place, off place → (d.node? place).isSome) (hnone : d.node? place = none)
    (rest : List String) (content : ByteArray) :
    e.node? (place ++ rest) ≠ some (.file content) := by
  intro hfile
  have hsome : (d.node? (place ++ rest)).isSome := by
    by_cases hplace : off (place ++ rest)
    · exact hoff _ hplace
    · rcases h.node?_eq_or _ hplace with hsame | ⟨-, hnew, -⟩
      · rw [← hsame, hfile]
        rfl
      · rw [hnew] at hfile
        cases hfile
  by_cases hrest : rest = []
  · rw [hrest, List.append_nil, hnone] at hsome
    cases hsome
  · rw [htree.directory_of_append hrest hsome] at hnone
    cases hnone

/-! ### Trees stay trees -/

/-- A disk stays a tree if it keeps its shape. -/
theorem SameShape.isTree (h : SameShape d e) (htree : d.IsTree) : e.IsTree := by
  intro place part hsome
  rw [h.isSome_node?] at hsome
  exact (h.directory_iff place).2 (htree place part hsome)

/-- A directory of a tree stands in a directory, as far as the root does. -/
theorem IsTree.directory_dropLast (h : disk.IsTree) (hplace : disk.node? place = some .directory) :
    disk.node? place.dropLast = some .directory := by
  rcases List.eq_nil_or_concat place with rfl | ⟨up, part, rfl⟩
  · exact node?_nil disk
  · rw [List.concat_eq_append, List.dropLast_concat]
    exact h up part (by rw [← List.concat_eq_append, hplace]; rfl)

/-- A name leads into a directory of a tree. -/
theorem IsTree.directory_of_walk (h : disk.IsTree) {last : Location} {part : String}
    {rest : List String} (hwalk : disk.walk place (part :: rest) = .ok last) :
    disk.node? last.dropLast = some .directory := by
  induction rest generalizing place part with
  | nil =>
      obtain ⟨next, hstep, hlast⟩ := walk_cons_eq_ok.1 hwalk
      obtain rfl := Except.ok.inj hlast
      have hplace := node?_of_step hstep
      have hup := h.directory_dropLast hplace
      rw [next_of_step hstep]
      split
      · exact hup
      · split
        · exact h.directory_dropLast hup
        · rwa [List.dropLast_concat]
  | cons second rest ih =>
      obtain ⟨next, -, hrest⟩ := walk_cons_eq_ok.1 hwalk
      exact ih hrest

/-- What a name leads to on a tree stands in a directory, or could be made in one. -/
theorem IsTree.directory_of_locate (h : disk.IsTree) (hplace : disk.locate name = .ok place) :
    disk.node? place.dropLast = some .directory := by
  obtain ⟨-, -, -, hwalk⟩ := locate_eq_ok.1 hplace
  obtain ⟨part, rest, hparts⟩ := List.exists_cons_of_ne_nil (FileName.parts_ne_nil name)
  exact h.directory_of_walk (hparts ▸ hwalk)

/-- A tree with a node put into one of its directories is a tree, if no directory gave way to it. -/
theorem IsTree.put (h : disk.IsTree) {node : Node}
    (hparent : disk.node? place.dropLast = some .directory)
    (hnode : disk.node? place = some .directory → node = .directory) :
    (disk.put place node).IsTree := by
  intro other part hsome
  have hother : disk.node? other = some .directory := by
    rw [node?_put_eq] at hsome
    split at hsome
    · rename_i heq
      obtain ⟨rfl, -⟩ := heq
      rwa [List.dropLast_concat] at hparent
    · exact h other part hsome
  rw [node?_put_eq]
  split
  · rename_i heq
    obtain ⟨rfl, -⟩ := heq
    rw [hnode hother]
  · exact hother

/-- A tree stays one when directories are made. -/
theorem IsTree.makeDirectories (h : disk.IsTree) (name : String) :
    (disk.makeDirectories name).1.IsTree := by
  refine makeDirectories_induction ?_ (above_self name) h
  intro d d' other _ hmade htree
  obtain ⟨place, hplace, -, rfl⟩ := makeDirectory_eq_ok.1 hmade
  exact htree.put (htree.directory_of_locate hplace) fun _ => rfl

/-- A tree stays one when a file is written. -/
theorem IsTree.writeBytes (h : disk.IsTree) {content : ByteArray}
    (hwrite : disk.writeBytes name content = .ok disk') : disk'.IsTree := by
  obtain ⟨place, htarget, rfl⟩ := writeBytes_eq_ok.1 hwrite
  obtain ⟨-, hplace, hnode⟩ := target_eq_ok.1 htarget
  exact h.put (h.directory_of_locate hplace) fun hdirectory => absurd hdirectory hnode

end ConfigGraft.Disk
