import ConfigGraft.Proofs.Disk.Above
import ConfigGraft.Proofs.Disk.Directories

/-!
# Disks that grow

Nothing that a run does takes a file or directory away: directories are made, files are made, and
files are written over. Such a disk grows. A name that led somewhere leads there still, but a name
that led nowhere may lead to something that was there before, as `x/../a` does once the directory
`x` is made.

This takes a `..`. On a disk that is a tree, a name without it leads through directories that are
all above the place that it leads to, and these were there if the place was.

## Main results

* `Disk.Grows.locate_eq_ok` — a name leads where it led;
* `Disk.grows_makeDirectories` — making directories takes nothing away;
* `Disk.IsTree.locate_of_grows` — **a name without `..` leads to a file that was there only if it
  led there before.**
-/

namespace ConfigGraft.Disk

/-- A disk **grows** into another if whatever stands in it stands there still: a directory as a
directory, and a file as a file with whatever content. -/
structure Grows (d e : Disk) : Prop where
  here : e.here = d.here
  kind : ∀ place node, d.node? place = some node →
    ∃ node', e.node? place = some node' ∧ node'.isDirectory = node.isDirectory

variable {d e f disk disk' : Disk} {name : String} {place : Location}

/-- A disk that stays as it is has grown. -/
theorem Grows.refl (d : Disk) : Grows d d := ⟨rfl, fun _ node h => ⟨node, h, rfl⟩⟩

/-- Growing is passed on. -/
theorem Grows.trans (h : Grows d e) (h' : Grows e f) : Grows d f := by
  refine ⟨h'.here.trans h.here, fun place node hd => ?_⟩
  obtain ⟨mid, he, hmid⟩ := h.kind place node hd
  obtain ⟨last, hf, hlast⟩ := h'.kind place mid he
  exact ⟨last, hf, hlast.trans hmid⟩

/-- A disk that keeps its shape grows. -/
theorem SameShape.grows (h : SameShape d e) : Grows d e := by
  refine ⟨h.here, fun place node hd => ?_⟩
  have hkind := h.kind place
  rw [hd, Option.map_some] at hkind
  exact Option.map_eq_some_iff.1 hkind

/-- Directories stay directories. -/
theorem Grows.directory (h : Grows d e) (hd : d.node? place = some .directory) :
    e.node? place = some .directory := by
  obtain ⟨node, he, hkind⟩ := h.kind place .directory hd
  cases node with
  | directory => exact he
  | file content => cases hkind

/-- Files stay files, though perhaps with other bytes. -/
theorem Grows.file {content : ByteArray} (h : Grows d e)
    (hd : d.node? place = some (.file content)) :
    ∃ content', e.node? place = some (.file content') := by
  obtain ⟨node, he, hkind⟩ := h.kind place (.file content) hd
  cases node with
  | directory => cases hkind
  | file content' => exact ⟨content', he⟩

/-! ### Where names lead -/

/-- A step that was possible still is, and leads to the same place. -/
theorem Grows.step_eq_ok (h : Grows d e) {next : Location} {part : String}
    (hstep : d.step place part = .ok next) : e.step place part = .ok next := by
  have hd := node?_of_step hstep
  rw [step, hd] at hstep
  rw [step, h.directory hd]
  exact hstep

/-- So is a walk. -/
theorem Grows.walk_eq_ok (h : Grows d e) {last : Location} {parts : List String}
    (hwalk : d.walk place parts = .ok last) : e.walk place parts = .ok last := by
  induction parts generalizing place with
  | nil => exact hwalk
  | cons part rest ih =>
      obtain ⟨next, hstep, hrest⟩ := walk_cons_eq_ok.1 hwalk
      exact walk_cons_eq_ok.2 ⟨next, h.step_eq_ok hstep, ih hrest⟩

/-- A name leads where it led. -/
theorem Grows.locate_eq_ok (h : Grows d e) (hplace : d.locate name = .ok place) :
    e.locate name = .ok place := by
  obtain ⟨hname, hzero, hsize, hwalk⟩ := Disk.locate_eq_ok.1 hplace
  have hstart : e.start name = d.start name := by rw [start, start, h.here]
  exact Disk.locate_eq_ok.2 ⟨hname, hzero, hsize, hstart ▸ h.walk_eq_ok hwalk⟩

/-! ### What makes a disk grow -/

/-- A disk grows when something is put where nothing stood. -/
theorem grows_put_of_none (h : disk.node? place = none) (node : Node) :
    Grows disk (disk.put place node) := by
  refine ⟨rfl, fun other node' hother => ⟨node', ?_, rfl⟩⟩
  have hne : other ≠ place := by
    rintro rfl
    rw [h] at hother
    cases hother
  have hnode : disk.node? place ≠ some .directory := by simp [h]
  rw [node?_put (ne_nil_of_ne_directory hnode), if_neg hne, hother]

/-- Writing a file takes nothing away. -/
theorem grows_put_file (h : disk.node? place ≠ some .directory) (content : ByteArray) :
    Grows disk (disk.put place (.file content)) := by
  rcases hnode : disk.node? place with - | - | old
  · exact grows_put_of_none hnode _
  · exact absurd hnode h
  · exact (sameShape_put hnode content).grows

/-- A disk grows when something is added to a file, or the file is made for it. -/
theorem grows_appendAt (disk : Disk) (place : Location) (content : ByteArray) :
    Grows disk (disk.appendAt place content) := by
  rw [appendAt]
  split
  · rename_i hfile
    exact grows_put_file (by simp [hfile]) _
  · exact .refl disk
  · rename_i hnone
    exact grows_put_of_none hnone _

/-- A disk grows when a directory is made. -/
theorem grows_makeDirectory (h : disk.makeDirectory name = .ok disk') : Grows disk disk' := by
  obtain ⟨place, -, hnone, rfl⟩ := makeDirectory_eq_ok.1 h
  exact grows_put_of_none hnone _

/-- **Making directories takes nothing away,** even where it fails. -/
theorem grows_makeDirectories (disk : Disk) (name : String) :
    Grows disk (disk.makeDirectories name).1 :=
  makeDirectories_induction (fun _ hmade hgrows => hgrows.trans (grows_makeDirectory hmade))
    (above_self name) (.refl disk)

/-! ### Trees -/

/-- A disk is a **tree** if whatever stands somewhere stands in a directory. -/
def IsTree (disk : Disk) : Prop :=
  ∀ place part, (disk.node? (place ++ [part])).isSome → disk.node? place = some .directory

/-- Above what stands in a tree there are directories. -/
theorem IsTree.directory_of_append (h : IsTree disk) {rest : List String} (hne : rest ≠ [])
    (hthere : (disk.node? (place ++ rest)).isSome) : disk.node? place = some .directory := by
  induction rest generalizing place with
  | nil => exact absurd rfl hne
  | cons part rest ih =>
      cases rest with
      | nil => exact h place part hthere
      | cons next rest =>
          rw [List.append_cons] at hthere
          have hbelow := ih (List.cons_ne_nil _ _) hthere
          exact h place part (by rw [hbelow]; rfl)

/-- Without `..` a name leads downwards. -/
theorem exists_append_of_walk {last : Location} {parts : List String} (hup : ".." ∉ parts)
    (h : disk.walk place parts = .ok last) : ∃ rest, last = place ++ rest := by
  induction parts generalizing place with
  | nil =>
      cases h
      exact ⟨[], (List.append_nil _).symm⟩
  | cons part parts ih =>
      obtain ⟨hpart, hparts⟩ := not_or.1 (mt List.mem_cons.2 hup)
      obtain ⟨next, hstep, hwalk⟩ := walk_cons_eq_ok.1 h
      obtain ⟨rest, rfl⟩ := ih hparts hwalk
      have hdown : next = place ∨ next = place ++ [part] := by
        rw [next_of_step hstep, if_neg (Ne.symm hpart)]
        split
        · exact .inl rfl
        · exact .inr rfl
      rcases hdown with rfl | rfl
      · exact ⟨rest, rfl⟩
      · exact ⟨part :: rest, List.append_assoc ..⟩

/-- Without a step upward, a walk that now leads to an old file goes through old directories only,
so it was possible before. -/
theorem IsTree.walk_of_grows (htree : IsTree d) (h : Grows d e) {content : ByteArray}
    {last : Location} (hfile : d.node? last = some (.file content)) {parts : List String}
    (hup : ".." ∉ parts) (hwalk : e.walk place parts = .ok last) :
    d.walk place parts = .ok last := by
  induction parts generalizing place with
  | nil => exact hwalk
  | cons part parts ih =>
      obtain ⟨next, hstep, hrest⟩ := walk_cons_eq_ok.1 hwalk
      have he := node?_of_step hstep
      obtain ⟨rest, hlast⟩ := exists_append_of_walk hup hwalk
      -- The place is above the file, so it was a directory before.
      have hne : rest ≠ [] := by
        rintro rfl
        rw [List.append_nil] at hlast
        obtain ⟨content', hstill⟩ := h.file hfile
        rw [hlast, he] at hstill
        cases hstill
      have hd : d.node? place = some .directory :=
        htree.directory_of_append hne (by rw [← hlast, hfile]; rfl)
      refine walk_cons_eq_ok.2 ⟨next, ?_, ih (fun hmem => hup (List.mem_cons_of_mem _ hmem)) hrest⟩
      rw [step, he] at hstep
      rw [step, hd]
      exact hstep

/-- **A name without `..` leads to a file that was there only if it led there before.** -/
theorem IsTree.locate_of_grows (htree : IsTree d) (h : Grows d e) {content : ByteArray}
    (hfile : d.node? place = some (.file content)) (hup : ".." ∉ FileName.parts name)
    (hplace : e.locate name = .ok place) : d.locate name = .ok place := by
  obtain ⟨hname, hzero, hsize, hwalk⟩ := Disk.locate_eq_ok.1 hplace
  have hstart : e.start name = d.start name := by rw [start, start, h.here]
  exact Disk.locate_eq_ok.2
    ⟨hname, hzero, hsize, htree.walk_of_grows h hfile hup (hstart ▸ hwalk)⟩

end ConfigGraft.Disk
