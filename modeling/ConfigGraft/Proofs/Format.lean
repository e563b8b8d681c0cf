import ConfigGraft.Format
import ConfigGraft.Proofs.Disk.Parent

/-!
# The format of a place

The format of a file is read off the end of its name. No suffix of a format has a slash in it, so
only the last part of the name counts, and this is also the last part of the place that the name
leads to. Hence names of the same file, however they are spelled, have the same format.

## Main results

* `Format.ofFile?_getLast`, `Format.ofFile?_join` — only the last part of a name counts;
* `Disk.ofFile?_of_locate` — **the format of a name is that of the place it leads to.**
-/

namespace ConfigGraft

namespace Format

/-- An ending without a slash is not seen past a slash. -/
theorem suffix_append_slash {suffix front back : List Char} (h : '/' ∉ suffix) :
    suffix <:+ front ++ '/' :: back ↔ suffix <:+ back := by
  constructor
  · intro hsuffix
    rcases List.suffix_or_suffix_of_suffix hsuffix (List.suffix_append front ('/' :: back)) with
      hshort | hlong
    · rcases List.suffix_cons_iff.1 hshort with rfl | hback
      · exact absurd List.mem_cons_self h
      · exact hback
    · exact absurd (hlong.subset List.mem_cons_self) h
  · exact fun hsuffix => hsuffix.trans ((List.suffix_cons _ _).trans (List.suffix_append _ _))

/-- Only what stands behind a slash counts. -/
theorem claims_append_slash (format : Format) (front back : String) :
    format.claims (front ++ "/" ++ back) = format.claims back := by
  have hlower : Text.lower (front ++ "/" ++ back).toList =
      Text.lower front.toList ++ '/' :: Text.lower back.toList := by
    have hslash : Text.lowerChar '/' = ['/'] := by decide
    simp [Text.lower, List.flatMap_append, hslash]
  have hplain : ∀ suffix ∈ format.suffixes, '/' ∉ suffix.toList := by
    cases format <;> decide
  rw [claims, claims, hlower, Bool.eq_iff_iff, List.any_eq_true, List.any_eq_true]
  simp only [List.isSuffixOf_iff_suffix]
  exact exists_congr fun suffix => and_congr_right fun hmem =>
    suffix_append_slash (hplain suffix hmem)

/-- The directory of a file has no say in its format. -/
theorem ofFile?_append_slash (front back : String) :
    ofFile? (front ++ "/" ++ back) = ofFile? back := by
  simp only [ofFile?, claims_append_slash]

/-- Only the last part of a name counts. -/
theorem ofFile?_getLast (name : String) :
    ofFile? name = ofFile? ((FileName.parts name).getLast (FileName.parts_ne_nil name)) := by
  have hname := FileName.intercalate_parts name
  rw [← List.dropLast_concat_getLast (FileName.parts_ne_nil name)] at hname
  by_cases hfront : (FileName.parts name).dropLast = []
  · rw [hfront, List.nil_append, String.intercalate_singleton] at hname
    rw [hname]
  · rw [String.intercalate_append_of_ne_nil hfront (by simp), String.intercalate_singleton] at hname
    exact (congrArg ofFile? hname.symm).trans (ofFile?_append_slash _ _)

/-- Joining a name to a directory leaves its format alone. -/
theorem ofFile?_join (base name : String) : ofFile? (FileName.join base name) = ofFile? name := by
  rw [ofFile?_getLast, FileName.getLast_parts_join, ← ofFile?_getLast]

end Format

namespace Disk

variable {disk : Disk}

/-- A name with a format ends in a part of its own, which the place that it leads to has too. -/
theorem getLast?_of_locate {name : String} {place : Location} {format : Format}
    (hformat : Format.ofFile? name = some format) (h : disk.locate name = .ok place) :
    place.getLast? = some ((FileName.parts name).getLast (FileName.parts_ne_nil name)) := by
  obtain ⟨-, -, -, hwalk⟩ := locate_eq_ok.1 h
  rw [Format.ofFile?_getLast] at hformat
  rw [← List.dropLast_concat_getLast (FileName.parts_ne_nil name), walk_append] at hwalk
  obtain ⟨mid, -, hlast⟩ := hwalk
  generalize (FileName.parts name).getLast (FileName.parts_ne_nil name) = last at hformat hlast ⊢
  have hown (part : String) (hpart : Format.ofFile? part = none) : last ≠ part := by
    rintro rfl
    rw [hpart] at hformat
    cases hformat
  have hempty : last ≠ "" := hown "" (by decide)
  have hdot : last ≠ "." := hown "." (by decide)
  have hdots : last ≠ ".." := hown ".." (by decide)
  simp only [walk, step, node?_of_walk_cons hlast, hempty, hdot, hdots, or_self, if_false] at hlast
  split at hlast
  · rename_i hstep
    split at hstep
    · cases hstep
    · cases hstep
      cases hlast
      simp
  · cases hlast

/-- **The format of a name is that of the place it leads to.** -/
theorem ofFile?_of_locate {name : String} {place : Location} {format : Format}
    (hformat : Format.ofFile? name = some format) (h : disk.locate name = .ok place) :
    place.getLast?.bind Format.ofFile? = some format := by
  rw [getLast?_of_locate hformat h, Option.bind_some, ← Format.ofFile?_getLast, hformat]

end Disk

end ConfigGraft
