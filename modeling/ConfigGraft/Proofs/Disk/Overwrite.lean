import ConfigGraft.Proofs.World.Twins

/-!
# Files that are written over

To write over a file that is there leaves the shape of a disk as it is, so every other name leads to
what it led to. Files at different places can be written over in any order: the disk that comes of
it is the same, down to the order in which it lists its nodes.

## Main results

* `Disk.target_of_find` — a file that is found can be written;
* `Disk.find_overwrite` — other names lead to what they led to;
* `Disk.overwrite_comm` — **files are written over in any order.**
-/

namespace ConfigGraft

/-- Keys that are there are given their values in any order. -/
theorem Association.put_comm {κ ν : Type} [BEq κ] [LawfulBEq κ] [DecidableEq κ] {k l : κ}
    (hne : k ≠ l) {es : List (κ × ν)} (hk : (es.lookup k).isSome) (hl : (es.lookup l).isSome)
    (v w : ν) : put k v (put l w es) = put l w (put k v es) := by
  induction es with
  | nil => cases hk
  | cons e rest ih =>
      obtain ⟨key, value⟩ := e
      rw [lookup_cons_eq] at hk hl
      by_cases hkey : key = k
      · subst hkey
        simp [put, hne]
      · by_cases hother : key = l
        · subst hother
          simp [put, Ne.symm hne]
        · rw [if_neg (Ne.symm hkey)] at hk
          rw [if_neg (Ne.symm hother)] at hl
          simp [put, hkey, hother, ih hk hl]

namespace Disk

variable {disk : Disk} {name : String} {place other : Location} {content : ByteArray}

/-- The disk with the file at a place written over, if there is something to write. -/
def overwrite (disk : Disk) (place : Location) : Option ByteArray → Disk
  | none => disk
  | some content => disk.put place (.file content)

/-- A file that is found can be written: its name does not end in a slash. -/
theorem target_of_find (h : disk.find name = .ok (place, .file content)) :
    disk.target name = .ok place := by
  obtain ⟨hplace, hfile⟩ := find_eq_ok.1 h
  refine target_eq_ok.2 ⟨?_, hplace, by simp [hfile]⟩
  rw [← Bool.not_eq_true]
  intro hslash
  -- A slash at the end asks for a directory where the file is.
  obtain ⟨front, rfl⟩ := String.endsWith_char_iff_exists_append.1 hslash
  obtain ⟨-, -, -, hwalk⟩ := locate_eq_ok.1 hplace
  have hparts : FileName.parts (front ++ "/") = FileName.parts front ++ [""] := by
    rw [← String.append_empty (s := front ++ "/"), FileName.parts_append_slash]
    rfl
  obtain ⟨mid, -, hlast⟩ := walk_append.1 (hparts ▸ hwalk)
  obtain ⟨next, hstep, hend⟩ := walk_cons_eq_ok.1 hlast
  obtain rfl : next = place := Except.ok.inj hend
  have hmid := node?_of_step hstep
  have hnext := next_of_step hstep
  rw [if_pos (.inl rfl)] at hnext
  rw [hnext, hmid] at hfile
  cases hfile

section

variable (hfile : disk.node? place = some (.file content)) (new? : Option ByteArray)
include hfile

/-- Writing over a file that is there keeps the shape. -/
theorem sameShape_overwrite : SameShape disk (disk.overwrite place new?) := by
  cases new? with
  | none => exact .refl disk
  | some new => exact sameShape_put hfile new

/-- It leaves all other places alone. -/
theorem node?_overwrite (hne : other ≠ place) :
    (disk.overwrite place new?).node? other = disk.node? other := by
  cases new? with
  | none => rfl
  | some new => rw [overwrite, node?_put (ne_nil_of_file hfile), if_neg hne]

/-- **Other names lead to what they led to.** -/
theorem find_overwrite (hne : other ≠ place) {node : Node} :
    (disk.overwrite place new?).find name = .ok (other, node) ↔
      disk.find name = .ok (other, node) := by
  rw [find_eq_ok, find_eq_ok, (sameShape_overwrite hfile new?).locate_eq,
    node?_overwrite hfile new? hne]

/-- **Files at different places are written over in any order.** -/
theorem overwrite_comm {content' : ByteArray} (hne : other ≠ place)
    (hother : disk.node? other = some (.file content')) (new?' : Option ByteArray) :
    (disk.overwrite place new?).overwrite other new?' =
      (disk.overwrite other new?').overwrite place new? := by
  have hlisted {p : Location} {c : ByteArray} (h : disk.node? p = some (.file c)) :
      (disk.nodes.lookup p).isSome := by
    rw [node?, if_neg (ne_nil_of_file h)] at h
    rw [h]
    rfl
  cases new? with
  | none => cases new?' <;> rfl
  | some new =>
      cases new?' with
      | none => rfl
      | some new' =>
          simp only [overwrite, put]
          rw [Association.put_comm hne (hlisted hother) (hlisted hfile)]

end

end Disk

/-! ### In a world -/

namespace World

variable {w v : World} {place : Location} {content : ByteArray}

/-- The world with a file of its disk written over. -/
def overwrite (w : World) (place : Location) (new? : Option ByteArray) : World :=
  { w with disk := w.disk.overwrite place new? }

/-- Twins stay twins when the same file is written over in both. -/
theorem Twins.overwrite (h : w.Twins v) (hfile : w.disk.node? place = some (.file content))
    (new? : Option ByteArray) : (w.overwrite place new?).Twins (v.overwrite place new?) := by
  cases new? with
  | none => exact h
  | some new =>
      have hnode : w.disk.node? place ≠ some .directory := by simp [hfile]
      have hgrows := Disk.grows_put_file hnode new
      exact h.withDisk hgrows (h.agree.put place (.file new))

end World

end ConfigGraft
