/-!
# Lines of a text

A text is cut after each line feed. A carriage return right before the line feed belongs to the
break; one at the very end of the text, with no line feed behind it, stays in its line. Text that
ends in a line feed has no further, empty line behind it.

`cutLines_flatten` says that cutting loses nothing.
-/

namespace ConfigGraft.Text

/-- The pieces of a text between line feeds, each with the mark whether a line feed ended it. -/
def cutLines : List Char → List (List Char × Bool)
  | [] => []
  | c :: rest =>
    if c = '\n' then ([], true) :: cutLines rest
    else match cutLines rest with
      | [] => [([c], false)]
      | (line, ended) :: more => (c :: line, ended) :: more

/-- A line without the carriage return that is part of its break. -/
def withoutBreak : List Char × Bool → List Char
  | (line, false) => line
  | (line, true) => if line.getLast? = some '\r' then line.dropLast else line

/-- The lines of a text, without their breaks. -/
def lines (cs : List Char) : List (List Char) :=
  (cutLines cs).map withoutBreak

/-- The piece together with the line feed that ended it. -/
def restoreBreak : List Char × Bool → List Char
  | (line, false) => line
  | (line, true) => line ++ ['\n']

/-- Cutting a text loses nothing. -/
theorem cutLines_flatten (cs : List Char) : (cutLines cs).flatMap restoreBreak = cs := by
  induction cs with
  | nil => rfl
  | cons c rest ih =>
    rw [cutLines]
    split
    · rename_i h; simp [restoreBreak, ih, h]
    · cases hrest : cutLines rest with
      | nil => rw [hrest] at ih; simp [restoreBreak, ← ih]
      | cons piece more =>
        obtain ⟨line, ended⟩ := piece
        rw [hrest] at ih
        cases ended <;> simp_all [restoreBreak]

/-- A text without a line feed is the first line before one. -/
theorem cutLines_append {line : List Char} (h : '\n' ∉ line) (rest : List Char) :
    cutLines (line ++ '\n' :: rest) = (line, true) :: cutLines rest := by
  induction line with
  | nil => simp [cutLines]
  | cons c line ih =>
      simp only [List.mem_cons, not_or] at h
      rw [List.cons_append, cutLines, if_neg (Ne.symm h.1), ih h.2]

/-- A line feed between two texts ends the last piece of the first one, or an empty piece where that
one has ended already. -/
theorem exists_cutLines_append (front back : List Char) :
    ∃ pieces line, cutLines (front ++ '\n' :: back) = pieces ++ (line, true) :: cutLines back ∧
      (cutLines front = pieces ∧ line = [] ∨ cutLines front = pieces ++ [(line, false)]) := by
  induction front with
  | nil => exact ⟨[], [], by simp [cutLines], .inl ⟨rfl, rfl⟩⟩
  | cons c rest ih =>
    obtain ⟨pieces, line, hcut, hfront⟩ := ih
    rw [List.cons_append, cutLines, cutLines, hcut]
    split
    · refine ⟨([], true) :: pieces, line, rfl, ?_⟩
      exact hfront.imp (fun h => ⟨by rw [h.1], h.2⟩) (fun h => by rw [h, List.cons_append])
    · cases pieces with
      | nil =>
        refine ⟨[], c :: line, rfl, .inr ?_⟩
        rcases hfront with ⟨hfront, rfl⟩ | hfront <;> rw [hfront] <;> rfl
      | cons piece pieces =>
        refine ⟨(c :: piece.1, piece.2) :: pieces, line, rfl, ?_⟩
        rcases hfront with ⟨hfront, rfl⟩ | hfront
        · exact .inl ⟨by rw [hfront], rfl⟩
        · exact .inr (by rw [hfront, List.cons_append]; rfl)

/-- A line without carriage returns holds nothing of its break. -/
theorem withoutBreak_eq_self {line : List Char} (h : '\r' ∉ line) :
    withoutBreak (line, true) = line :=
  if_neg fun hlast => h (List.mem_of_getLast? hlast)

/-- A line that holds no break of its own is cut off at the break behind it. -/
theorem lines_append {line : List Char} (hfeed : '\n' ∉ line) (hreturn : '\r' ∉ line)
    (rest : List Char) : lines (line ++ '\n' :: rest) = line :: lines rest := by
  rw [lines, cutLines_append hfeed, List.map_cons, withoutBreak_eq_self hreturn, lines]

/-- Lines that are ended by line feeds are cut there again, and a carriage return at the end of one
counts as part of its break. -/
theorem lines_flatMap {lines : List (List Char)} (h : ∀ line ∈ lines, '\n' ∉ line) :
    Text.lines (lines.flatMap (· ++ ['\n'])) = lines.map fun line => withoutBreak (line, true) := by
  induction lines with
  | nil => rfl
  | cons line rest ih =>
      obtain ⟨hline, hrest⟩ := List.forall_mem_cons.1 h
      rw [List.flatMap_cons, List.append_assoc, List.singleton_append, Text.lines,
        cutLines_append hline, List.map_cons, List.map_cons, ← ih hrest, Text.lines]

/-- Lines without carriage returns hold nothing of their breaks. -/
theorem map_withoutBreak {lines : List (List Char)} (h : ∀ line ∈ lines, '\r' ∉ line) :
    (lines.map fun line => withoutBreak (line, true)) = lines :=
  (List.map_congr_left fun line hline => withoutBreak_eq_self (h line hline)).trans
    (List.map_id lines)

/-- A character begins the first line, unless it belongs to a break. -/
theorem lines_cons {c : Char} {cs : List Char} (hfeed : c ≠ '\n')
    (hreturn : c = '\r' → cs.head? ≠ some '\n') :
    lines (c :: cs) =
      match lines cs with
      | [] => [[c]]
      | line :: more => (c :: line) :: more := by
  have hflat := cutLines_flatten cs
  rw [lines, lines, cutLines, if_neg hfeed]
  cases hcut : cutLines cs with
  | nil => rfl
  | cons piece more =>
      rw [hcut] at hflat
      obtain ⟨line, ended⟩ := piece
      have hline : withoutBreak (c :: line, ended) = c :: withoutBreak (line, ended) := by
        cases ended with
        | false => rfl
        | true =>
            cases line with
            | nil =>
                have hc : c ≠ '\r' := fun hc => hreturn hc (by rw [← hflat]; rfl)
                simp [withoutBreak, hc]
            | cons d line =>
                rw [withoutBreak, withoutBreak, List.getLast?_cons_cons,
                  List.dropLast_cons_cons]
                split <;> rfl
      rw [List.map_cons, List.map_cons, hline]

end ConfigGraft.Text
