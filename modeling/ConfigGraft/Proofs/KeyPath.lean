import ConfigGraft.KeyPath

/-!
# Segments of a written path

A path is written as its segments with dots between them, and can be taken apart from either end.
From the front it is cut at every dot. From the end it is cut at its last dot first, which parts the
leaf from the parents, and these are cut at every dot that is left. Both ways lead to the same
segments, and no other list of segments is written like that.

## Main results

* `KeyPath.exists_parse_iff` — the texts that are paths, and their segments;
* `KeyPath.splitLeaf_text` — a path is taken apart from its end;
* `KeyPath.parse_joined` — **paths are the texts of lists of segments, and each of one only.**
-/

namespace ConfigGraft

/-! ### The last dot -/

/-- A text without a dot is not cut. -/
theorem cutLastDot?_of_not_mem {cs : List Char} (h : '.' ∉ cs) : cutLastDot? cs = none := by
  induction cs with
  | nil => rfl
  | cons c rest ih =>
      obtain ⟨hc, hrest⟩ := not_or.1 (mt List.mem_cons.2 h)
      rw [cutLastDot?, ih hrest]
      exact if_neg (Ne.symm hc)

/-- A text is cut where no dot follows any more. -/
theorem cutLastDot?_append {last : List Char} (h : '.' ∉ last) (front : List Char) :
    cutLastDot? (front ++ '.' :: last) = some (front, last) := by
  induction front with
  | nil =>
      rw [List.nil_append, cutLastDot?, cutLastDot?_of_not_mem h]
      exact if_pos rfl
  | cons c front ih => rw [List.cons_append, cutLastDot?, ih]

/-- A last piece is joined behind a dot. -/
theorem joinDots_concat {pieces : List (List Char)} (hne : pieces ≠ []) (last : List Char) :
    joinDots (pieces ++ [last]) = joinDots pieces ++ '.' :: last := by
  induction pieces with
  | nil => exact absurd rfl hne
  | cons piece more ih =>
      cases more with
      | nil => rfl
      | cons next more =>
          have hmore := ih (List.cons_ne_nil _ _)
          rw [List.cons_append] at hmore
          rw [List.cons_append, List.cons_append, joinDots, hmore, joinDots, List.append_assoc]
          rfl

/-- Dots between pieces are what the library puts there. -/
theorem joinDots_eq_intercalate (pieces : List (List Char)) :
    joinDots pieces = ['.'].intercalate pieces := by
  induction pieces with
  | nil => rfl
  | cons piece more ih =>
      cases more with
      | nil => simp [joinDots]
      | cons next more =>
          rw [joinDots, ih]
          simp [List.intercalate]

namespace KeyPath

/-! ### Both ways to the segments -/

/-- **What the segments of a path can be:** one text or more, none of them empty and none with a dot
in it. -/
def AreSegments (segments : List String) : Prop :=
  segments ≠ [] ∧ ∀ s ∈ segments, s ≠ "" ∧ '.' ∉ s.toList

/-- The segments of a path are what segments have to be. -/
theorem areSegments (p : KeyPath) : AreSegments p.segments :=
  ⟨p.segments_ne_nil, fun s hs => ⟨p.ne_empty s hs, p.no_dot s hs⟩⟩

/-- A path is spelled by its segments with dots between them. -/
theorem text_eq_intercalate (p : KeyPath) : p.text = ".".intercalate p.segments := by
  rw [text, joinDots_eq_intercalate, ← String.toList_inj, String.toList_ofList,
    String.toList_intercalate]
  rfl

/-- The texts that are paths, and their segments. -/
theorem exists_parse_iff {text : String} {segments : List String} :
    (∃ p, parse text = .ok p ∧ p.segments = segments) ↔
      AreSegments segments ∧ ".".intercalate segments = text := by
  constructor
  · rintro ⟨p, hp, rfl⟩
    exact ⟨p.areSegments, p.text_eq_intercalate.symm.trans (text_of_parse hp)⟩
  · rintro ⟨⟨hne, hsegments⟩, rfl⟩
    let p : KeyPath :=
      ⟨segments, hne, fun s hs => (hsegments s hs).1, fun s hs => (hsegments s hs).2⟩
    have hp : p.text = ".".intercalate segments := p.text_eq_intercalate
    exact ⟨p, hp ▸ p.parse_text, rfl⟩

/-- **A path is taken apart from its end** into its parents and its leaf. -/
theorem splitLeaf_text (p : KeyPath) : splitLeaf p.text = (p.parents, p.leaf) := by
  have hsegments := p.parents_append_leaf
  have hleaf : '.' ∉ p.leaf.toList := p.no_dot _ (List.getLast_mem p.segments_ne_nil)
  have hparents : ∀ piece ∈ p.parents.map String.toList, '.' ∉ piece := by
    rintro piece hpiece
    obtain ⟨s, hs, rfl⟩ := List.mem_map.1 hpiece
    exact p.no_dot s (hsegments ▸ List.mem_append_left _ hs)
  rw [splitLeaf, text, String.toList_ofList, ← hsegments, List.map_append]
  by_cases hnone : p.parents = []
  · rw [hnone, List.map_nil, List.nil_append, List.map_singleton, joinDots,
      cutLastDot?_of_not_mem hleaf, String.ofList_toList]
  · have hne : p.parents.map String.toList ≠ [] := mt List.map_eq_nil_iff.1 hnone
    rw [List.map_singleton, joinDots_concat hne, cutLastDot?_append hleaf]
    simp only [splitDots_joinDots hne hparents, List.map_map, String.ofList_toList]
    simp [Function.comp_def]

/-- **Paths are the texts of lists of segments, and each is the text of one list only.** This list
has the pieces of the text between its dots, and it is also what comes of cutting off the leaf at
the last dot first. Every list of segments is that of the path that it is written as. -/
theorem parse_joined (text : String) :
    ((∃ p, parse text = .ok p) ↔
      ∃ segments, AreSegments segments ∧ ".".intercalate segments = text) ∧
    (∀ p, parse text = .ok p →
      (∀ segments, AreSegments segments ∧ ".".intercalate segments = text ↔
        segments = p.segments) ∧
      (splitDots text.toList).map String.ofList = p.segments ∧
      (splitLeaf text).1 ++ [(splitLeaf text).2] = p.segments ∧
      splitLeaf text = (p.parents, p.leaf)) ∧
    ∀ segments, AreSegments segments →
      ∃ p, parse (".".intercalate segments) = .ok p ∧ p.segments = segments := by
  refine ⟨⟨?_, ?_⟩, fun p hp => ?_, fun segments hsegments => exists_parse_iff.2 ⟨hsegments, rfl⟩⟩
  · rintro ⟨p, hp⟩
    exact ⟨p.segments, exists_parse_iff.1 ⟨p, hp, rfl⟩⟩
  · rintro ⟨segments, hsegments⟩
    obtain ⟨p, hp, -⟩ := exists_parse_iff.2 hsegments
    exact ⟨p, hp⟩
  · have htext := text_of_parse hp
    have hleaf : splitLeaf text = (p.parents, p.leaf) := htext ▸ p.splitLeaf_text
    refine ⟨fun segments => ⟨fun h => ?_, ?_⟩, ?_, ?_, hleaf⟩
    · obtain ⟨q, hq, rfl⟩ := exists_parse_iff.2 h
      rw [hp] at hq
      cases hq
      rfl
    · rintro rfl
      exact exists_parse_iff.1 ⟨p, hp, rfl⟩
    · rw [← htext, splitDots_text]
      simp [Function.comp_def]
    · rw [hleaf, parents_append_leaf]

/-- The path of a house number, from its segments to its text and back from either end. -/
theorem parse_joined_sampleNumber :
    AreSegments ["straße", "haus", "nr"] ∧
      ∃ p, parse "straße.haus.nr" = .ok p ∧ p.segments = ["straße", "haus", "nr"] ∧
        (splitDots "straße.haus.nr".toList).map String.ofList = ["straße", "haus", "nr"] ∧
        (splitLeaf "straße.haus.nr").1 ++ [(splitLeaf "straße.haus.nr").2] =
          ["straße", "haus", "nr"] := by
  have hsegments : AreSegments ["straße", "haus", "nr"] := ⟨by simp, by decide⟩
  have htext : ".".intercalate ["straße", "haus", "nr"] = "straße.haus.nr" := by decide
  obtain ⟨-, hpath, hjoined⟩ := parse_joined "straße.haus.nr"
  obtain ⟨p, hp, hnames⟩ := hjoined _ hsegments
  rw [htext] at hp
  obtain ⟨-, hfront, hend, -⟩ := hpath p hp
  exact ⟨hsegments, p, hp, hnames, hfront.trans hnames, hend.trans hnames⟩

end KeyPath

end ConfigGraft
