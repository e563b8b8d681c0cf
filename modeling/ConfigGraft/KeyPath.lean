/-!
# Dotted key paths

A change names the place of a value inside a document by segments joined with dots, such as
`database.connection.port`. A `KeyPath` holds the segments: there is at least one, none is empty
and none contains a dot, so the written form determines them.

## Main results

* `splitDots_joinDots`, `joinDots_splitDots` — writing segments with dots and cutting at the dots
  are inverse to each other;
* `KeyPath.parse_text` — the written form of a path reads back as that path.
-/

namespace ConfigGraft

/-! ### Cutting at dots -/

/-- The pieces of a text between its dots. -/
def splitDots : List Char → List (List Char)
  | [] => [[]]
  | c :: rest =>
    if c = '.' then [] :: splitDots rest
    else match splitDots rest with
      | [] => [[c]]
      | piece :: more => (c :: piece) :: more

/-- What stands before the last dot of a text and what stands behind it, if there is a dot. -/
def cutLastDot? : List Char → Option (List Char × List Char)
  | [] => none
  | c :: rest =>
    match cutLastDot? rest with
    | some (front, last) => some (c :: front, last)
    | none => if c = '.' then some ([], rest) else none

/-- Pieces written one after the other with a dot between neighbours. -/
def joinDots : List (List Char) → List Char
  | [] => []
  | [piece] => piece
  | piece :: next :: more => piece ++ '.' :: joinDots (next :: more)

/-- Cutting a text at its dots gives one piece at least, if an empty one. -/
theorem splitDots_ne_nil (cs : List Char) : splitDots cs ≠ [] := by
  cases cs with
  | nil => simp [splitDots]
  | cons c rest => rw [splitDots]; split <;> (try split) <;> simp

/-- Joining what was cut gives the text back. -/
@[simp] theorem joinDots_splitDots (cs : List Char) : joinDots (splitDots cs) = cs := by
  induction cs with
  | nil => rfl
  | cons c rest ih =>
    rw [splitDots]
    split
    · rename_i h
      cases hrest : splitDots rest with
      | nil => exact absurd hrest (splitDots_ne_nil rest)
      | cons piece more => rw [hrest] at ih; simp [joinDots, ih, h]
    · cases hrest : splitDots rest with
      | nil => exact absurd hrest (splitDots_ne_nil rest)
      | cons piece more =>
        rw [hrest] at ih
        cases more with
        | nil => simpa [joinDots] using ih
        | cons next more => simpa [joinDots] using ih

/-- No piece of a cut text contains a dot. -/
theorem not_mem_of_mem_splitDots {cs piece : List Char} (h : piece ∈ splitDots cs) :
    '.' ∉ piece := by
  induction cs generalizing piece with
  | nil => simp_all [splitDots]
  | cons c rest ih =>
    rw [splitDots] at h
    split at h
    · rcases List.mem_cons.1 h with rfl | h
      · simp
      · exact ih h
    · rename_i hc
      split at h
      · simp only [List.mem_cons, List.not_mem_nil, or_false] at h
        subst h
        simpa using Ne.symm hc
      · rename_i first more hrest
        rcases List.mem_cons.1 h with rfl | h
        · have : '.' ∉ first := ih (by simp [hrest])
          simp [Ne.symm hc, this]
        · exact ih (by simp [hrest, h])

/-- A text without dots is its only piece. -/
private theorem splitDots_of_not_mem {piece : List Char} (h : '.' ∉ piece) :
    splitDots piece = [piece] := by
  induction piece with
  | nil => rfl
  | cons c rest ih =>
    simp only [List.mem_cons, not_or] at h
    rw [splitDots, if_neg (Ne.symm h.1), ih h.2]

/-- Up to the first dot there is one piece, and the others are those of the text behind it. -/
private theorem splitDots_append_dot {piece : List Char} (h : '.' ∉ piece) (rest : List Char) :
    splitDots (piece ++ '.' :: rest) = piece :: splitDots rest := by
  induction piece with
  | nil => simp [splitDots]
  | cons c more ih =>
    simp only [List.mem_cons, not_or] at h
    rw [List.cons_append, splitDots, if_neg (Ne.symm h.1), ih h.2]

/-- Cutting what was joined gives the pieces back, when there is a piece and none has a dot. -/
theorem splitDots_joinDots {pieces : List (List Char)} (hne : pieces ≠ [])
    (hdot : ∀ piece ∈ pieces, '.' ∉ piece) : splitDots (joinDots pieces) = pieces := by
  induction pieces with
  | nil => exact absurd rfl hne
  | cons piece more ih =>
    cases more with
    | nil => exact splitDots_of_not_mem (hdot piece (by simp))
    | cons next more =>
      rw [joinDots, splitDots_append_dot (hdot piece (by simp)),
        ih (by simp) (fun p hp => hdot p (List.mem_cons_of_mem _ hp))]

/-! ### Paths -/

/-- Why a text is not a key path. -/
inductive PathFault where
  | empty
  | emptySegment
  deriving DecidableEq, Repr

/-- The wording of the reason. -/
def PathFault.message : PathFault → String
  | .empty => "path is empty"
  | .emptySegment => "path contains an empty segment"

/-- The place of a value in a document: one or more segments, none of them empty or dotted. -/
structure KeyPath where
  segments : List String
  segments_ne_nil : segments ≠ []
  ne_empty : ∀ s ∈ segments, s ≠ ""
  no_dot : ∀ s ∈ segments, '.' ∉ s.toList

namespace KeyPath

/-- Paths with the same segments are the same. -/
theorem ext {p q : KeyPath} (h : p.segments = q.segments) : p = q := by
  cases p; cases q; simp_all

instance : DecidableEq KeyPath := fun p q =>
  decidable_of_iff (p.segments = q.segments) ⟨ext, fun h => h ▸ rfl⟩

/-- Reads a written path. -/
def parse (text : String) : Except PathFault KeyPath :=
  if text = "" then .error .empty
  else if h : [] ∈ splitDots text.toList then .error .emptySegment
  else .ok {
    segments := (splitDots text.toList).map String.ofList
    segments_ne_nil := by simpa using splitDots_ne_nil text.toList
    ne_empty := by
      intro s hs
      obtain ⟨piece, hp, rfl⟩ := List.mem_map.1 hs
      intro hempty
      have : piece = [] := by simpa using congrArg String.toList hempty
      exact h (this ▸ hp)
    no_dot := by
      intro s hs
      obtain ⟨piece, hp, rfl⟩ := List.mem_map.1 hs
      simpa using not_mem_of_mem_splitDots hp }

/-- The written form: the segments with dots between them. -/
def text (p : KeyPath) : String :=
  String.ofList (joinDots (p.segments.map String.toList))

/-- The segments that lead to the value. -/
def parents (p : KeyPath) : List String := p.segments.dropLast

/-- The last segment, the key of the value itself. -/
def leaf (p : KeyPath) : String := p.segments.getLast p.segments_ne_nil

/-- The parents and the leaf of a written path, found from its end: the leaf stands behind the last
dot, and what stands before that dot is cut at its own. -/
def splitLeaf (text : String) : List String × String :=
  match cutLastDot? text.toList with
  | some (front, last) => ((splitDots front).map String.ofList, String.ofList last)
  | none => ([], text)

/-- The segments are the parents and then the leaf. -/
theorem parents_append_leaf (p : KeyPath) : p.parents ++ [p.leaf] = p.segments :=
  List.dropLast_concat_getLast p.segments_ne_nil

/-- Texts taken apart into characters and put together again are as they were. -/
private theorem map_ofList_toList (ss : List String) :
    (ss.map String.toList).map String.ofList = ss := by
  simp [List.map_map, Function.comp_def]

/-- Cutting the written form at its dots gives the segments. -/
theorem splitDots_text (p : KeyPath) :
    splitDots p.text.toList = p.segments.map String.toList := by
  rw [text, String.toList_ofList]
  refine splitDots_joinDots (by simpa using p.segments_ne_nil) ?_
  intro piece hp
  obtain ⟨s, hs, rfl⟩ := List.mem_map.1 hp
  exact p.no_dot s hs

/-- **The written form of a path reads back as that path.** -/
theorem parse_text (p : KeyPath) : parse p.text = .ok p := by
  have hnil : [] ∉ splitDots p.text.toList := by
    rw [splitDots_text]
    intro h
    obtain ⟨s, hs, he⟩ := List.mem_map.1 h
    exact p.ne_empty s hs (by simpa using he)
  have hne : p.text ≠ "" := by
    intro h
    apply hnil
    rw [h]
    simp [splitDots]
  simp only [parse, hne, if_false, hnil, dif_neg, not_false_eq_true]
  congr 1
  apply ext
  simp only [splitDots_text, map_ofList_toList]

/-- A path that was read is written as the text it was read from. -/
theorem text_of_parse {t : String} {p : KeyPath} (h : parse t = .ok p) : p.text = t := by
  unfold parse at h
  split at h
  · cases h
  · split at h
    · cases h
    · cases h
      simp [text, List.map_map, Function.comp_def]

end KeyPath

end ConfigGraft
