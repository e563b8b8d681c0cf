import Mathlib.Algebra.Ring.Parity
import Mathlib.Data.List.DropRight
import Mathlib.Order.Bounds.Basic
import Mathlib.Order.Nat
import ConfigGraft.Proofs.Properties.Division

/-!
# Logical lines

A logical line begins on a line that is neither blank nor a comment. As long as what was gathered
for it ends in an odd number of backslashes, the last of them is dropped and the next line belongs
to it as well, without the blanks before it. Lines are numbered from one, and a logical line has the
number of the line where it begins.

## Main results

* `logical_iff` — the reader finds the logical lines of a text;
* `parse_error_iff` — **a text is rejected exactly if an escape in one of its logical lines is
  malformed, and the fault is on the first of these lines.**
-/

namespace ConfigGraft.Properties

/-- Whether a text ends in an odd number of backslashes. -/
def EndsOpen (text : List Char) : Prop := Odd (text.rtakeWhile (· == '\\')).length

/-- **What is gathered for a logical line** that begins with a text, from the numbered lines behind
it: the logical line, and the lines that are left. -/
inductive Gathers :
    List Char → List (List Char × Nat) → List Char → List (List Char × Nat) → Prop
  | whole {text : List Char} {lines : List (List Char × Nat)} :
      ¬ EndsOpen text → Gathers text lines text lines
  | last {text : List Char} : EndsOpen text → Gathers text [] text.dropLast []
  | absorb {text next line : List Char} {n : Nat} {lines left : List (List Char × Nat)} :
      EndsOpen text → Gathers (text.dropLast ++ next.dropWhile isBlank) lines line left →
        Gathers text ((next, n) :: lines) line left

/-- **A logical line among numbered lines**, with the number of the line where it begins. -/
inductive Logical : List (List Char × Nat) → Nat → List Char → Prop
  | here {raw line : List Char} {n : Nat} {lines left : List (List Char × Nat)} :
      isSilent (raw.dropWhile isBlank) = false → Gathers (raw.dropWhile isBlank) lines line left →
        Logical ((raw, n) :: lines) n line
  | silent {raw line : List Char} {n m : Nat} {lines : List (List Char × Nat)} :
      isSilent (raw.dropWhile isBlank) = true → Logical lines m line →
        Logical ((raw, n) :: lines) m line
  | behind {raw first line : List Char} {n m : Nat} {lines left : List (List Char × Nat)} :
      isSilent (raw.dropWhile isBlank) = false → Gathers (raw.dropWhile isBlank) lines first left →
        Logical left m line → Logical ((raw, n) :: lines) m line

/-! ### Gathering -/

section

variable {text line : List Char} {lines left : List (List Char × Nat)} {n : Nat}

/-- A text ends open just if it goes on for the reader. -/
theorem endsOpen_iff : EndsOpen text ↔ continues text = true := by
  rw [EndsOpen, List.rtakeWhile, List.length_reverse, Nat.odd_iff, continues, beq_iff_eq]

/-- **The reader gathers logical lines.** -/
theorem gathers_iff : Gathers text lines line left ↔ joinLines text lines = (line, left) := by
  constructor
  · intro h
    induction h with
    | @whole _ lines hwhole =>
        rw [endsOpen_iff] at hwhole
        cases lines <;> rw [joinLines, if_neg hwhole]
    | last hopen => rw [joinLines, if_pos (endsOpen_iff.1 hopen)]
    | absorb hopen _ ih => rw [joinLines, if_pos (endsOpen_iff.1 hopen), ih]
  · intro h
    induction lines generalizing text with
    | nil =>
        rw [joinLines] at h
        obtain ⟨rfl, rfl⟩ := Prod.mk.inj h
        split
        · rename_i hopen
          exact .last (endsOpen_iff.2 hopen)
        · rename_i hopen
          exact .whole (endsOpen_iff.not.2 hopen)
    | cons next lines ih =>
        rw [joinLines] at h
        split at h
        · rename_i hopen
          exact .absorb (endsOpen_iff.2 hopen) (ih h)
        · rename_i hopen
          obtain ⟨rfl, rfl⟩ := Prod.mk.inj h
          exact .whole (endsOpen_iff.not.2 hopen)

/-- The lines that are left are the last ones. -/
theorem suffix_joinLines (text : List Char) (lines : List (List Char × Nat)) :
    (joinLines text lines).2 <:+ lines := by
  induction lines generalizing text with
  | nil => exact List.suffix_refl _
  | cons next lines ih =>
      rw [joinLines]
      split
      · exact (ih _).trans (List.suffix_cons next lines)
      · exact List.suffix_refl _

/-- **The reader finds the logical lines.** -/
theorem logical_iff : Logical lines n line ↔ (line, n) ∈ logicalLines lines := by
  fun_induction logicalLines lines with
  | case1 => exact ⟨nofun, nofun⟩
  | case2 raw m lines hsilent ih =>
      rw [← ih]
      refine ⟨fun h => ?_, .silent hsilent⟩
      cases h with
      | here hspeaks | behind hspeaks => exact absurd hsilent (ne_true_of_eq_false hspeaks)
      | silent _ h => exact h
  | case3 raw m lines hspeaks ih =>
      have hspeaks := eq_false_of_ne_true hspeaks
      rw [List.mem_cons, ← ih]
      constructor
      · intro h
        cases h with
        | here _ hgathers => exact .inl (by rw [gathers_iff.1 hgathers])
        | silent hsilent => exact absurd hsilent (ne_true_of_eq_false hspeaks)
        | behind _ hgathers h =>
            rw [gathers_iff.1 hgathers]
            exact .inr h
      · rintro (heq | h)
        · obtain ⟨rfl, rfl⟩ := Prod.mk.inj heq
          exact .here hspeaks (gathers_iff.2 rfl)
        · exact .behind hspeaks (gathers_iff.2 rfl) h

/-- Logical lines come in the order of their numbers. -/
theorem sublist_logicalLines (lines : List (List Char × Nat)) :
    ((logicalLines lines).map Prod.snd).Sublist (lines.map Prod.snd) := by
  fun_induction logicalLines lines with
  | case1 => exact List.Sublist.refl _
  | case2 raw n lines hsilent ih => exact ih.cons n
  | case3 raw n lines hspeaks ih =>
      exact (ih.trans ((suffix_joinLines _ lines).sublist.map Prod.snd)).cons_cons n

end

/-! ### Whole texts -/

/-- Whether a logical line with a malformed escape begins on a line of a text. -/
def FaultyAt (content : List Char) (n : Nat) : Prop :=
  ∃ line, Logical ((Text.lines content).zipIdx 1) n line ∧ Faulty line

/-- Reading stops at the first line with a malformed escape. -/
theorem readEntries_error_iff {entries : List (List Char × Nat)}
    (hsorted : (entries.map Prod.snd).Pairwise (· < ·)) (table : Properties) (n : Nat) :
    (∃ cause, readEntries table entries = .error ⟨n, cause⟩) ↔
      IsLeast {m | ∃ line, (line, m) ∈ entries ∧ Faulty line} n := by
  induction entries generalizing table with
  | nil => exact ⟨nofun, fun h => absurd h.1 (by simp)⟩
  | cons entry entries ih =>
      obtain ⟨line, m⟩ := entry
      rw [List.map_cons, List.pairwise_cons] at hsorted
      obtain ⟨hfirst, hsorted⟩ := hsorted
      by_cases hfaulty : Faulty line
      · -- The numbers grow, so no line behind this one has a smaller number.
        obtain ⟨cause, hcause⟩ := (readEntry_error_iff line).2 hfaulty
        have hleast :
            IsLeast {k | ∃ other, (other, k) ∈ (line, m) :: entries ∧ Faulty other} m := by
          refine ⟨⟨line, List.mem_cons_self, hfaulty⟩, ?_⟩
          rintro k ⟨other, hmem, -⟩
          rcases List.mem_cons.1 hmem with heq | hmem
          · exact Nat.le_of_eq (Prod.mk.inj heq).2.symm
          · exact Nat.le_of_lt (hfirst k (List.mem_map_of_mem hmem))
        simp only [readEntries, hcause]
        constructor
        · rintro ⟨_, ⟨⟩⟩
          exact hleast
        · intro h
          exact ⟨cause, by rw [h.unique hleast]⟩
      · have hset : {k | ∃ other, (other, k) ∈ (line, m) :: entries ∧ Faulty other} =
            {k | ∃ other, (other, k) ∈ entries ∧ Faulty other} := by
          ext k
          refine exists_congr fun other => and_congr_left fun hother => ?_
          rw [List.mem_cons, or_iff_right]
          rintro ⟨⟩
          exact hfaulty hother
        rw [hset]
        cases hread : readEntry line with
        | error cause => exact absurd ((readEntry_error_iff line).1 ⟨cause, hread⟩) hfaulty
        | ok entry =>
            simp only [readEntries, hread]
            exact ih hsorted _

/-- **A text is rejected exactly if an escape in one of its logical lines is malformed.** The fault
has the number of the line where the first such logical line begins. -/
theorem parse_error_iff (content : List Char) :
    ((∃ fault, parse content = .error fault) ↔ ∃ n, FaultyAt content n) ∧
      ∀ n, (∃ cause, parse content = .error ⟨n, cause⟩) ↔ IsLeast {m | FaultyAt content m} n := by
  have hsorted :
      ((logicalLines ((Text.lines content).zipIdx 1)).map Prod.snd).Pairwise (· < ·) := by
    refine List.Pairwise.sublist (sublist_logicalLines _) ?_
    rw [List.zipIdx_map_snd]
    exact List.pairwise_lt_range' 1
  have hfirst (n : Nat) : (∃ cause, parse content = .error ⟨n, cause⟩) ↔
      IsLeast {m | FaultyAt content m} n := by
    simp only [parse, readEntries_error_iff hsorted, FaultyAt, logical_iff]
  refine ⟨⟨?_, fun h => ?_⟩, hfirst⟩
  · rintro ⟨⟨n, cause⟩, herror⟩
    exact ⟨n, ((hfirst n).1 ⟨cause, herror⟩).1⟩
  · classical
    obtain ⟨cause, herror⟩ := (hfirst _).2 (Nat.isLeast_find h)
    exact ⟨_, herror⟩

/-- The escape is cut short by the end of a logical line that begins behind a comment. -/
example : parse "# c\na\\\n  =\\u12\nb\n".toList = .error ⟨2, .badDigits ['1', '2']⟩ := by cbv

end ConfigGraft.Properties
