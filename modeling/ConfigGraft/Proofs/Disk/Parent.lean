import ConfigGraft.Proofs.Disk.Shape
import ConfigGraft.Proofs.FileName

/-!
# Parent directories of what is there

A name that leads to something is followed through the directory that its parent's name leads to.
So a file that is there can be written again without any directory being made.

## Main results

* `Disk.walk_append` — a name is followed part by part;
* `Disk.has_parent` — **what is there has a parent that is there.**
-/

namespace ConfigGraft.Disk

variable {disk : Disk}

/-- A name is followed part by part. -/
theorem walk_append {place last : Location} {front back : List String} :
    disk.walk place (front ++ back) = .ok last ↔
      ∃ mid, disk.walk place front = .ok mid ∧ disk.walk mid back = .ok last := by
  induction front generalizing place with
  | nil => simp [walk]
  | cons part front ih =>
      simp only [List.cons_append, walk_cons_eq_ok, ih]
      constructor
      · rintro ⟨next, hstep, mid, hfront, hback⟩
        exact ⟨mid, ⟨next, hstep, hfront⟩, hback⟩
      · rintro ⟨mid, ⟨next, hstep, hfront⟩, hback⟩
        exact ⟨next, hstep, mid, hfront, hback⟩

/-- A walk with a step in it starts at a directory. -/
theorem node?_of_walk_cons {place last : Location} {part : String} {rest : List String}
    (h : disk.walk place (part :: rest) = .ok last) : disk.node? place = some .directory := by
  obtain ⟨next, hstep, -⟩ := walk_cons_eq_ok.1 h
  exact node?_of_step hstep

/-- A name of one part leads to a place in the working directory. -/
theorem locate_part {name : String} (hhere : disk.node? disk.here = some .directory)
    (h : FileName.IsPart name) : disk.locate name = .ok (disk.here ++ [name]) := by
  have hparts := FileName.parts_of_isPart h
  obtain ⟨hname, hslash, hzero, hsize⟩ := h
  have hstart : disk.start name = disk.here := by
    rw [start, if_neg]
    intro hroot
    rw [String.startsWith_char_eq_head?] at hroot
    exact hslash (List.mem_of_mem_head? (by simpa using hroot))
  rw [locate_of_parts hparts hname.1 hzero (by omega), hstart, walk, step, hhere]
  simp only [hname, or_self, if_false, if_neg (Nat.not_lt.2 hsize), walk]

/-- What the working directory has no entry for is not there. -/
theorem has_part_eq_false {name : String} (hhere : disk.node? disk.here = some .directory)
    (h : FileName.IsPart name) (hnone : disk.node? (disk.here ++ [name]) = none) :
    disk.has name = false := by
  rw [has, find, locate_part hhere h]
  simp only [hnone]

/-- A file can be written by a name of one part, unless a directory has it. -/
theorem target_part {name : String} (hhere : disk.node? disk.here = some .directory)
    (h : FileName.IsPart name) (hnode : disk.node? (disk.here ++ [name]) ≠ some .directory) :
    disk.target name = .ok (disk.here ++ [name]) := by
  refine target_eq_ok.2 ⟨?_, locate_part hhere h, hnode⟩
  rw [String.endsWith_char_eq_getLast?, beq_eq_false_iff_ne]
  exact fun hlast => h.2.1 (List.mem_of_getLast? hlast)

/-- The root directory is there. -/
theorem has_root : disk.has "/" = true := by
  have hparts : FileName.parts "/" = ["", ""] := by decide
  have hstart : disk.start "/" = [] := by simp [start, String.startsWith_char_eq_head?]
  refine has_iff.2 ⟨[], locate_eq_ok.2 ⟨by simp, by simp, by decide, ?_⟩, by simp [node?]⟩
  rw [hparts, hstart]
  simp [walk, step, node?]

/-- The first parts of a name are followed from where the name is followed from. -/
theorem start_intercalate_front {name part : String} {front rest : List String}
    (hne : front ≠ []) (hempty : "/".intercalate front ≠ "")
    (hparts : FileName.parts name = front ++ part :: rest) (disk : Disk) :
    disk.start ("/".intercalate front) = disk.start name := by
  have hname : name = "/".intercalate front ++ "/" ++ "/".intercalate (part :: rest) := by
    rw [← String.intercalate_append_of_ne_nil hne (by simp), ← hparts, FileName.intercalate_parts]
  obtain ⟨c, cs, hc⟩ : ∃ c cs, ("/".intercalate front).toList = c :: cs :=
    List.exists_cons_of_ne_nil (mt String.toList_eq_nil_iff.1 hempty)
  simp only [start, String.startsWith_char_eq_head?, hname, String.toList_append, hc,
    List.cons_append, List.head?_cons]

/-- The first parts of a name that leads to something lead to a directory. -/
theorem has_of_parts {name part : String} {kept rest : List String} (h : disk.has name = true)
    (hne : kept ≠ []) (hparts : FileName.parts name = kept ++ part :: rest) :
    "/".intercalate kept = "" ∨ disk.has ("/".intercalate kept) = true := by
  by_cases hempty : "/".intercalate kept = ""
  · exact .inl hempty
  refine .inr ?_
  have hname : name = "/".intercalate kept ++ "/" ++ "/".intercalate (part :: rest) := by
    rw [← String.intercalate_append_of_ne_nil hne (by simp), ← hparts, FileName.intercalate_parts]
  obtain ⟨place, hplace, -⟩ := has_iff.1 h
  obtain ⟨-, hzero, hsize, hwalk⟩ := locate_eq_ok.1 hplace
  rw [hparts, walk_append] at hwalk
  obtain ⟨mid, hmid, hrest⟩ := hwalk
  refine has_iff.2 ⟨mid, locate_eq_ok.2 ⟨hempty, ?_, ?_, ?_⟩, ?_⟩
  · rw [hname] at hzero
    simp only [String.toList_append, List.mem_append, not_or] at hzero
    exact hzero.1.1
  · rw [hname, String.utf8ByteSize_append, String.utf8ByteSize_append] at hsize
    omega
  · rw [FileName.parts_intercalate_front hne hparts, start_intercalate_front hne hempty hparts,
      hmid]
  · rw [node?_of_walk_cons hrest]
    rfl

/-- **What is there has a parent that is there,** unless it has none that goes by a name. -/
theorem has_parent {name up : String} (h : disk.has name = true)
    (hup : FileName.parent? name = some up) : up = "" ∨ disk.has up = true := by
  rcases FileName.parent?_eq_some hup with rfl | rfl | ⟨kept, part, rest, hne, rfl, hparts⟩
  · exact .inl rfl
  · exact .inr has_root
  · exact has_of_parts h hne hparts

end ConfigGraft.Disk
