import ConfigGraft.FileName

/-!
# Parts of file names

A name is its parts with slashes between them, so names are best compared part by part. The name of
the parent directory consists of some of the first parts, and joining a name to a directory leaves
its last part alone.

## Main results

* `intercalate_parts`, `parts_intercalate` — a name is its parts with slashes between them;
* `getLast_parts_join` — joining leaves the last part alone;
* `parent?_eq_some` — **what the name of the parent directory is made of.**
-/

namespace ConfigGraft.FileName

/-! ### Parts -/

/-- A name has at least one part, be it empty. -/
theorem parts_ne_nil (name : String) : parts name ≠ [] := by
  simp [parts]

/-- A name is its parts with slashes between them. -/
theorem intercalate_parts (name : String) : "/".intercalate (parts name) = name := by
  rw [← String.toList_inj, String.toList_intercalate, parts, List.map_map]
  have hid : (String.toList ∘ String.ofList) = id := funext fun cs => String.toList_ofList
  rw [hid, List.map_id]
  exact List.intercalate_splitOn '/'

/-- Parts without slashes are the parts of the name they make up. -/
theorem parts_intercalate {ps : List String} (hne : ps ≠ []) (h : ∀ part ∈ ps, '/' ∉ part.toList) :
    parts ("/".intercalate ps) = ps := by
  rw [parts, String.toList_intercalate]
  have hsplit : (['/'].intercalate (ps.map String.toList)).splitOn '/' = ps.map String.toList := by
    apply List.splitOn_intercalate
    · simpa using h
    · simpa using hne
  rw [show "/".toList = ['/'] from rfl, hsplit, List.map_map]
  have hid : (String.ofList ∘ String.toList) = id := funext fun text => String.ofList_toList
  rw [hid, List.map_id]

/-- No piece has the separator in it. -/
theorem not_mem_of_mem_splitOn {cs piece : List Char} (h : piece ∈ cs.splitOn '/') :
    '/' ∉ piece := by
  induction cs generalizing piece with
  | nil => simp_all
  | cons c cs ih =>
      rw [List.splitOn_cons_eq_if_modifyHead] at h
      split at h
      · rcases List.mem_cons.1 h with rfl | hmem
        · exact List.not_mem_nil
        · exact ih hmem
      · rename_i hc
        have hne : c ≠ '/' := by simpa using hc
        rcases hsplit : cs.splitOn '/' with - | ⟨first, rest⟩
        · exact absurd hsplit (List.splitOn_ne_nil _ _)
        · rw [hsplit] at ih h
          rcases List.mem_cons.1 h with rfl | hmem
          · exact List.not_mem_cons_of_ne_of_not_mem hne.symm (ih List.mem_cons_self)
          · exact ih (List.mem_cons_of_mem _ hmem)

/-- No part has a slash in it. -/
theorem not_mem_of_mem_parts {name part : String} (h : part ∈ parts name) : '/' ∉ part.toList := by
  obtain ⟨piece, hmem, rfl⟩ := List.mem_map.1 h
  rw [String.toList_ofList]
  exact not_mem_of_mem_splitOn hmem

/-- The first parts of a name are the parts of the name that they make up. -/
theorem parts_intercalate_front {name : String} {front back : List String} (hne : front ≠ [])
    (h : parts name = front ++ back) : parts ("/".intercalate front) = front := by
  refine parts_intercalate hne fun piece hpiece => ?_
  have hmem : piece ∈ parts name := h ▸ List.mem_append_left _ hpiece
  exact not_mem_of_mem_parts hmem

/-- A slash parts a name. -/
theorem parts_append_slash (front back : String) :
    parts (front ++ "/" ++ back) = parts front ++ parts back := by
  rw [parts, String.toList_append, String.toList_append, List.append_assoc]
  exact (congrArg _ (List.splitOn_append_cons_self _ _)).trans List.map_append

/-- Joining leaves the last part alone. -/
theorem getLast_parts_join (base name : String) :
    (parts (join base name)).getLast (parts_ne_nil _) =
      (parts name).getLast (parts_ne_nil _) := by
  have hslash (front : String) {text : String} (h : text = front ++ "/" ++ name) :
      (parts text).getLast (parts_ne_nil _) = (parts name).getLast (parts_ne_nil _) := by
    subst h
    simp only [parts_append_slash, List.getLast_append_of_ne_nil _ (parts_ne_nil name)]
  rw [join]
  split
  · rfl
  · split
    · rename_i hbase
      rcases hbase with rfl | hslashed
      · simp
      · obtain ⟨front, rfl⟩ := String.endsWith_char_iff_exists_append.1 hslashed
        exact hslash front rfl
    · exact hslash base rfl

/-! ### Parent directories -/

/-- Dropping the silent parts in front leaves an end of the parts. -/
theorem dropSilent_suffix (ps : List String) : dropSilent ps <:+ ps := by
  fun_induction dropSilent ps with
  | case1 rest ih => exact ih.trans (List.suffix_cons _ _)
  | case2 part rest ih => exact ih.trans (List.suffix_cons _ _)
  | case3 ps => exact List.suffix_rfl

/-- So it does behind the root. -/
theorem dropSilentRooted_suffix (ps : List String) : dropSilentRooted ps <:+ ps := by
  fun_induction dropSilentRooted ps with
  | case1 rest ih => exact ih.trans (List.suffix_cons _ _)
  | case2 rest ih => exact ih.trans (List.suffix_cons _ _)
  | case3 ps => exact List.suffix_rfl

/-- **The name of the parent directory is made of some of the first parts.** It is the root, or it
is empty, or it has all the parts of the name up to some point. -/
theorem parent?_eq_some {name up : String} (h : parent? name = some up) :
    up = "" ∨ up = "/" ∨ ∃ kept part rest, kept ≠ [] ∧ up = "/".intercalate kept ∧
      parts name = kept ++ part :: rest := by
  -- A reversed list that was cut twice from the front, with a part taken off in between.
  have hcut {ps kept up : List String} {part : String} (hdrop : part :: up <:+ ps.reverse)
      (hkept : kept <:+ up) : ∃ rest, ps = kept.reverse ++ rest ∧ rest ≠ [] := by
    obtain ⟨silent, hsilent⟩ := hdrop
    obtain ⟨more, rfl⟩ := hkept
    refine ⟨more.reverse ++ part :: silent.reverse, ?_, by simp⟩
    rw [← List.reverse_reverse ps, ← hsilent]
    simp
  rw [parent?] at h
  split at h
  · rename_i below hparts
    split at h
    · cases h
    · rename_i part up' hdrop
      obtain ⟨rest, hbelow, hrest⟩ := hcut (hdrop ▸ dropSilentRooted_suffix below.reverse)
        (dropSilentRooted_suffix up')
      have hup := Option.some.inj h
      rcases hkept : (dropSilentRooted up').reverse with - | ⟨first, more⟩
      · rw [hkept] at hup
        exact .inr (.inl hup.symm)
      · obtain ⟨part, rest, rfl⟩ := List.exists_cons_of_ne_nil hrest
        refine .inr (.inr ⟨"" :: (dropSilentRooted up').reverse, part, rest, by simp, ?_, ?_⟩)
        · rw [String.intercalate_cons_of_ne_nil (by simp [hkept]), ← hup]
          rfl
        · rw [hparts, List.cons_append, ← hbelow]
  · split at h
    · cases h
    · rename_i part up' hdrop
      obtain ⟨rest, hall, hrest⟩ := hcut (hdrop ▸ dropSilent_suffix (parts name).reverse)
        (dropSilent_suffix up')
      have hup := Option.some.inj h
      rcases hkept : (dropSilent up').reverse with - | ⟨first, more⟩
      · rw [hkept] at hup
        exact .inl hup.symm
      · obtain ⟨part, rest, rfl⟩ := List.exists_cons_of_ne_nil hrest
        exact .inr (.inr ⟨_, part, rest, by simp [hkept], hup.symm, hall⟩)

/-! ### Names of one part -/

/-- A name is **of one part** if a directory can have an entry of that name. -/
def IsPart (name : String) : Prop :=
  (name ≠ "" ∧ name ≠ "." ∧ name ≠ "..") ∧ '/' ∉ name.toList ∧ '\x00' ∉ name.toList ∧
    name.utf8ByteSize ≤ 255

instance (name : String) : Decidable (IsPart name) := inferInstanceAs (Decidable (_ ∧ _))

/-- A name without a slash is its only part. -/
theorem parts_of_isPart {name : String} (h : IsPart name) : parts name = [name] := by
  have hpiece : ∀ piece ∈ [name], '/' ∉ piece.toList := List.forall_mem_singleton.2 h.2.1
  simpa using parts_intercalate (List.cons_ne_nil _ _) hpiece

/-- The parent directory of a name of one part goes by the empty name. -/
theorem parent?_of_isPart {name : String} (h : IsPart name) : parent? name = some "" := by
  have hdrop : dropSilent [name] = [name] := by
    rw [dropSilent]
    · exact fun _ heq => h.1.1 (List.cons.inj heq).1
    · exact fun _ _ heq => List.cons_ne_nil _ _ (List.cons.inj heq).2.symm
  rw [parent?, parts_of_isPart h]
  split
  · rename_i heq
    exact absurd (List.cons.inj heq).1 h.1.1
  · rw [List.reverse_singleton, hdrop]
    rfl

end ConfigGraft.FileName
