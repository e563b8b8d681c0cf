import ConfigGraft.Disk

/-!
# The shape of a disk

Where a name leads depends on what stands at each location, a directory, a file or nothing, and not
on what the files hold. Disks that agree on this have the same shape. Overwriting a file keeps the
shape, so it changes neither where any name leads nor whether there is something.

## Main results

* `Disk.SameShape.locate_eq`, `Disk.SameShape.has_eq` — names lead to the same places;
* `Disk.sameShape_put` — overwriting a file keeps the shape;
* `Disk.target_eq_ok` — a file is written where its name leads.
-/

namespace ConfigGraft.Disk

/-- Whether a node is a directory. -/
def Node.isDirectory : Node → Bool
  | .directory => true
  | .file _ => false

/-- **Disks of the same shape** have directories at the same locations, and files at the same
locations, with whatever content. -/
structure SameShape (d e : Disk) : Prop where
  here : e.here = d.here
  kind : ∀ place, (e.node? place).map Node.isDirectory = (d.node? place).map Node.isDirectory

variable {d e f : Disk}

/-- A disk has its own shape. -/
theorem SameShape.refl (d : Disk) : SameShape d d := ⟨rfl, fun _ => rfl⟩

/-- Having the same shape is passed on. -/
theorem SameShape.trans (h : SameShape d e) (h' : SameShape e f) : SameShape d f :=
  ⟨h'.here.trans h.here, fun place => (h'.kind place).trans (h.kind place)⟩

/-- Something stands at a place on both disks or on none. -/
theorem SameShape.isSome_node? (h : SameShape d e) (place : Location) :
    (e.node? place).isSome = (d.node? place).isSome := by
  have hkind := congrArg Option.isSome (h.kind place)
  rwa [Option.isSome_map, Option.isSome_map] at hkind

/-! ### Where names lead -/

/-- A step does the same on both disks, and fails for the same reason. -/
theorem SameShape.step_eq (h : SameShape d e) (place : Location) (part : String) :
    e.step place part = d.step place part := by
  have hkind := h.kind place
  unfold step
  cases hd : d.node? place with
  | none =>
      rw [hd] at hkind
      rw [Option.map_eq_none_iff.1 hkind]
  | some node =>
      rw [hd, Option.map_some] at hkind
      obtain ⟨node', he, hsame⟩ := Option.map_eq_some_iff.1 hkind
      rw [he]
      cases node <;> cases node' <;> first | rfl | cases hsame

/-- So does a walk. -/
theorem SameShape.walk_eq (h : SameShape d e) (place : Location) (parts : List String) :
    e.walk place parts = d.walk place parts := by
  induction parts generalizing place with
  | nil => rfl
  | cons part parts ih =>
      rw [walk, walk, h.step_eq]
      rcases d.step place part with fault | next
      · rfl
      · exact ih next

/-- So does following a name. -/
theorem SameShape.locate_eq (h : SameShape d e) (name : String) :
    e.locate name = d.locate name := by
  simp only [locate, start, h.here, h.walk_eq]

/-- Steps are made from directories only. -/
theorem node?_of_step {disk : Disk} {place next : Location} {part : String}
    (h : disk.step place part = .ok next) : disk.node? place = some .directory := by
  rw [step] at h
  split at h
  · cases h
  · cases h
  · assumption

/-- A step stays, or it goes up, or it goes down. -/
theorem next_of_step {disk : Disk} {place next : Location} {part : String}
    (h : disk.step place part = .ok next) :
    next = if part = "" ∨ part = "." then place
      else if part = ".." then place.dropLast else place ++ [part] := by
  rw [step, node?_of_step h] at h
  dsimp only at h
  split at h
  · rename_i hstay
    rw [if_pos hstay, Except.ok.inj h]
  · rename_i hstay
    rw [if_neg hstay]
    split at h
    · rename_i hup
      rw [if_pos hup, Except.ok.inj h]
    · rename_i hup
      rw [if_neg hup]
      split at h
      · cases h
      · exact (Except.ok.inj h).symm

/-- A walk is possible if its first step is, and the rest from there. -/
theorem walk_cons_eq_ok {disk : Disk} {place last : Location} {part : String}
    {rest : List String} : disk.walk place (part :: rest) = .ok last ↔
      ∃ next, disk.step place part = .ok next ∧ disk.walk next rest = .ok last := by
  rw [walk]
  cases disk.step place part with
  | error fault => simp
  | ok next => simp

/-- What it takes for a name to lead to a place: it is not empty, has no zero character, is not too
long, and its parts can be followed. -/
theorem locate_eq_ok {disk : Disk} {name : String} {place : Location} :
    disk.locate name = .ok place ↔ name ≠ "" ∧ '\x00' ∉ name.toList ∧
      name.utf8ByteSize < 4096 ∧ disk.walk (disk.start name) (FileName.parts name) = .ok place := by
  rw [locate]
  rw [String.contains_char_eq]
  split
  · simp [*]
  · split
    · simp_all
    · split
      · simp
        omega
      · rename_i hne hzero hsize
        simp_all

/-- A name that is not too long and means something is followed from its first part. -/
theorem locate_of_parts {disk : Disk} {name : String} {parts : List String}
    (hparts : FileName.parts name = parts) (hname : name ≠ "") (hzero : '\x00' ∉ name.toList)
    (hsize : name.utf8ByteSize < 4096) :
    disk.locate name = disk.walk (disk.start name) parts := by
  have hzero' : name.contains '\x00' = false := by simpa [String.contains_char_eq] using hzero
  rw [locate, if_neg hname, hzero', if_neg Bool.false_ne_true, if_neg (Nat.not_le.2 hsize), hparts]

/-- What a name leads to, in terms of the place. -/
theorem find_eq_ok {disk : Disk} {name : String} {place : Location} {node : Node} :
    disk.find name = .ok (place, node) ↔
      disk.locate name = .ok place ∧ disk.node? place = some node := by
  rw [find]
  rcases disk.locate name with fault | place'
  · simp
  · cases hnode : disk.node? place' with
    | none =>
        simp only [hnode, reduceCtorEq, Except.ok.injEq, false_iff, not_and]
        rintro rfl
        simp [hnode]
    | some node' =>
        simp only [hnode, Except.ok.injEq, Prod.mk.injEq]
        constructor
        · rintro ⟨rfl, rfl⟩
          exact ⟨rfl, hnode⟩
        · rintro ⟨rfl, hnode'⟩
          exact ⟨rfl, Option.some.inj (hnode.symm.trans hnode')⟩

/-- A name leads to something exactly if it means a place where something stands. -/
theorem has_iff {disk : Disk} {name : String} :
    disk.has name = true ↔ ∃ place, disk.locate name = .ok place ∧ (disk.node? place).isSome := by
  rw [has]
  constructor
  · intro h
    rcases hfind : disk.find name with fault | ⟨place, node⟩
    · rw [hfind] at h; cases h
    · obtain ⟨hplace, hnode⟩ := find_eq_ok.1 hfind
      exact ⟨place, hplace, by rw [hnode]; rfl⟩
  · rintro ⟨place, hplace, hsome⟩
    obtain ⟨node, hnode⟩ := Option.isSome_iff_exists.1 hsome
    rw [find_eq_ok.2 ⟨hplace, hnode⟩]

/-- A name leads to something on both disks or on none. -/
theorem SameShape.has_eq (h : SameShape d e) (name : String) : e.has name = d.has name := by
  rw [Bool.eq_iff_iff, has_iff, has_iff]
  simp only [h.locate_eq, h.isSome_node?]

/-! ### Writing -/

/-- The root is a directory. -/
@[simp] theorem node?_nil (disk : Disk) : disk.node? [] = some .directory := if_pos rfl

/-- The root is no file. -/
theorem ne_nil_of_file {disk : Disk} {place : Location} {content : ByteArray}
    (h : disk.node? place = some (.file content)) : place ≠ [] := by
  rintro rfl
  simp [node?] at h

/-- Overwriting a file keeps the shape. -/
theorem sameShape_put {disk : Disk} {place : Location} {content : ByteArray}
    (h : disk.node? place = some (.file content)) (content' : ByteArray) :
    SameShape disk (disk.put place (.file content')) := by
  refine ⟨rfl, fun other => ?_⟩
  rw [node?_put (ne_nil_of_file h)]
  split
  · rename_i heq
    rw [heq, h]
    rfl
  · rfl

/-- A file is written where its name leads, unless there is a directory or the name is one of a
directory. -/
theorem target_eq_ok {disk : Disk} {name : String} {place : Location} :
    disk.target name = .ok place ↔ name.endsWith '/' = false ∧
      disk.locate name = .ok place ∧ disk.node? place ≠ some .directory := by
  rw [target]
  cases hslash : name.endsWith '/' with
  | true =>
      rw [if_pos rfl]
      split <;> simp
  | false =>
      rw [if_neg Bool.false_ne_true]
      rcases disk.locate name with fault | other
      · simp
      · dsimp only
        constructor
        · intro h
          split at h
          · cases h
          · rename_i hnode
            cases h
            exact ⟨rfl, rfl, hnode⟩
        · rintro ⟨-, hplace, hnode⟩
          obtain rfl := Except.ok.inj hplace
          split
          · rename_i hdirectory
            exact absurd hdirectory hnode
          · rfl

/-- A file is written where its name leads as a target, and nothing else happens. -/
theorem writeBytes_eq_ok {disk disk' : Disk} {name : String} {content : ByteArray} :
    disk.writeBytes name content = .ok disk' ↔
      ∃ place, disk.target name = .ok place ∧ disk' = disk.put place (.file content) := by
  rw [writeBytes]
  cases disk.target name with
  | error fault => simp
  | ok place => simp [eq_comm]

end ConfigGraft.Disk
