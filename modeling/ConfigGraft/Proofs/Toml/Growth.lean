import ConfigGraft.Proofs.Toml.LeavesFirst
import ConfigGraft.Proofs.Toml.Statement

/-!
# A tree grows from its sections

The sections of a tree come one table after the other, each behind those of the table around it. So
when the section of a table takes effect, that table and the tables around it are each the last
entry of their table: `Focus` says how the document is filled by what is in such a table. A table
without strings is made on the way to the first table in it.

## Main results

* `Focus.update` — a change at the path of a focus is one of what fills it;
* `Tree.regrows` — **the sections of the tables of a tree make these tables, wherever it is;**
* `Tree.foldlM_sections` — **all sections make the document,** with its leaves first.
-/

namespace ConfigGraft.Toml

open Draft

/-! ### New keys -/

section

variable {key : String} {entries : Entries}

variable {change : Entries → Option Entries}

/-- A table that is missing on the way is made at the end. -/
theorem updateAt?_new (hkey : key ∉ entries.map Prod.fst) :
    updateAt? change [key] entries =
      (change []).map fun inner => entries ++ [(key, .table .passed inner)] := by
  simp only [updateAt?, Association.lookup_eq_none hkey, put, Association.put_of_not_mem _ hkey]

/-- A change of the last table of a table. -/
theorem updateAt?_last (hkey : key ∉ entries.map Prod.fst) (origin : Origin) (inner : Entries) :
    updateAt? change [key] (entries ++ [(key, .table origin inner)]) =
      (change inner).map fun inner => entries ++ [(key, .table origin inner)] := by
  have hlookup : (entries ++ [(key, Draft.table origin inner)]).lookup key =
      some (.table origin inner) := by
    rw [List.lookup_append, Association.lookup_eq_none hkey, Option.none_or, List.lookup_cons_self]
  simp only [updateAt?, hlookup, put, Association.put_last _ hkey]

/-- A change at a longer path is one at a shorter path. -/
theorem updateAt?_append (change : Entries → Option Entries) (path more : List String) :
    updateAt? change (path ++ more) = updateAt? (updateAt? change more) path := by
  induction path with
  | nil =>
      funext entries
      rw [List.nil_append, updateAt?]
  | cons segment path ih =>
      funext entries
      rw [List.cons_append, updateAt?, updateAt?, ih]

/-- A change at a key leaves something at it. -/
theorem updateAt?_ne_nil (change : Entries → Option Entries) (key : String) (entries : Entries) :
    updateAt? change [key] entries ≠ some [] := by
  have hput (draft : Draft) : put key draft entries ≠ [] := by
    unfold put
    cases entries with
    | nil => exact List.cons_ne_nil _ _
    | cons entry rest =>
        rw [Association.put]
        split <;> exact List.cons_ne_nil _ _
  rw [updateAt?]
  split <;> simp [hput]

end

/-! ### Focus -/

/-- A way to fill a document with what is in the table at a path. The table need not be there
while nothing is in it, so only changes count that leave something in it. -/
structure Focus (path : List String) (fill : Entries → Entries) : Prop where
  /-- A change at the path is one of what fills the document. -/
  update : ∀ {change : Entries → Option Entries}, (∀ entries, change entries ≠ some []) →
    ∀ entries, updateAt? change path (fill entries) = (change entries).map fill

namespace Focus

/-- The document itself is filled with its entries. -/
theorem root : Focus [] id where
  update _ entries := by rw [updateAt?, id_eq, Option.map_id_fun, id_eq]

variable {path : List String} {fill : Entries → Entries} {key : String} {entries : Entries}

/-- The last table of a table is filled, once it was opened. -/
theorem opened (h : Focus path fill) (hkey : key ∉ entries.map Prod.fst) :
    Focus (path ++ [key]) fun inner => fill (entries ++ [(key, .table .opened inner)]) where
  update {change} _ inner := by
    rw [updateAt?_append, h.update (updateAt?_ne_nil change key), updateAt?_last hkey,
      Option.map_map]
    rfl

end Focus

/-- The entries of a table with one more table, if anything is in that one. -/
def withPassed (key : String) (entries : Entries) : Entries → Entries
  | [] => entries
  | draft :: inner => entries ++ [(key, .table .passed (draft :: inner))]

/-- The last table of a table is filled, if it is only passed. -/
theorem Focus.passed {path : List String} {fill : Entries → Entries} {key : String}
    {entries : Entries} (h : Focus path fill) (hkey : key ∉ entries.map Prod.fst) :
    Focus (path ++ [key]) fun inner => fill (withPassed key entries inner) where
  update {change} hchange inner := by
    have hinner : updateAt? change [key] (withPassed key entries inner) =
        (change inner).map (withPassed key entries) := by
      have hafter : (change inner).map (fun inner => entries ++ [(key, .table .passed inner)]) =
          (change inner).map (withPassed key entries) := by
        refine Option.map_congr fun after hafter => ?_
        cases after with
        | nil => exact absurd hafter (hchange inner)
        | cons draft after => rfl
      rw [← hafter]
      cases inner with
      | nil => exact updateAt?_new hkey
      | cons draft inner => exact updateAt?_last hkey .passed (draft :: inner)
    rw [updateAt?_append, h.update (updateAt?_ne_nil change key), hinner, Option.map_map]
    rfl

/-! ### One section -/

/-- The entries of a table as drafts. -/
def drafts (entries : Table) : Entries := entries.map fun entry => (entry.1, .value entry.2)

/-- The drafts of entries have their keys. -/
theorem keys_drafts (entries : Table) : (drafts entries).map Prod.fst = entries.map Prod.fst := by
  rw [drafts, List.map_map]
  rfl

/-- The drafts of entries come to the entries. -/
theorem toEntries_drafts (entries : Table) : toEntries (drafts entries) = entries := by
  induction entries with
  | nil => rfl
  | cons entry rest ih =>
      rw [drafts, List.map_cons, toEntries, toValue]
      exact congrArg _ ih

/-- Drafts are settled one by one. -/
theorem toEntries_append (front back : Entries) :
    toEntries (front ++ back) = toEntries front ++ toEntries back := by
  induction front with
  | nil => rfl
  | cons entry front ih =>
      obtain ⟨key, draft⟩ := entry
      rw [List.cons_append, toEntries, ih, toEntries, List.cons_append]

section

variable {path : List String} {fill : Entries → Entries}

/-- A header opens a table. -/
theorem step?_openTable {key : String} {entries : Entries} (hfocus : Focus path fill)
    (hkey : key ∉ entries.map Prod.fst) (last : List String) :
    Growth.step? ⟨fill entries, last⟩ (.openTable path key) =
      some ⟨fill (entries ++ [(key, .table .opened [])]), path ++ [key]⟩ := by
  have hopen (inner : Entries) : openTable? key inner ≠ some [] := by
    rw [openTable?]
    split <;> simp
  rw [Growth.step?, hfocus.update hopen, openTable?, Association.lookup_eq_none hkey]
  rfl

/-- The lines of a section add its entries. -/
theorem foldlM_entries (hfocus : Focus path fill) (before : Entries) (entries : Table)
    (hkeys : (before.map Prod.fst ++ entries.map Prod.fst).Nodup) :
    (entries.map fun entry => Statement.entry [] entry.1 entry.2).foldlM Growth.step?
      ⟨fill before, path⟩ = some ⟨fill (before ++ drafts entries), path⟩ := by
  induction entries generalizing before with
  | nil => rw [drafts, List.map_nil, List.map_nil, List.append_nil]; rfl
  | cons entry rest ih =>
      obtain ⟨key, value⟩ := entry
      have hnew : key ∉ before.map Prod.fst := fun hmem =>
        (List.nodup_append.1 hkeys).2.2 key hmem key (List.mem_cons_self ..) rfl
      have hadd (inner : Entries) : addDotted? key value [] inner ≠ some [] := by
        rw [addDotted?, add?]
        split <;> simp
      have hstep : Growth.step? ⟨fill before, path⟩ (.entry [] key value) =
          some ⟨fill (before ++ [(key, .value value)]), path⟩ := by
        rw [Growth.step?, hfocus.update hadd, addDotted?, add?, Association.lookup_eq_none hnew]
        rfl
      have hkeys' : ((before ++ [(key, Draft.value value)]).map Prod.fst ++
          rest.map Prod.fst).Nodup := by
        simpa using hkeys
      rw [List.map_cons, List.foldlM_cons, hstep]
      exact (ih _ hkeys').trans (by rw [List.append_assoc]; rfl)

/-! ### All sections -/

/-- Wherever a table is, as long as there is nothing at the keys of the tables in it, these tables
come about from their sections. -/
def Regrows (entries : Table) : Prop :=
  ∀ {path : List String} {fill : Entries → Entries} (before : Entries) (last : List String),
    Focus path fill → (∀ key ∈ (branches entries).map Prod.fst, key ∉ before.map Prod.fst) →
    ∃ grown last', ((sectionsOf path entries).flatMap Section.statements).foldlM Growth.step?
        ⟨fill before, last⟩ = some ⟨fill (before ++ grown), last'⟩ ∧
      toEntries grown = branches entries

variable {entries : Table} {key : String} {before : Entries}

/-- The strings of a tree are at other keys than the tables in it. -/
theorem Tree.keys_branches (h : Tree entries) :
    ∀ key ∈ (branches entries).map Prod.fst, key ∉ (drafts (leaves entries)).map Prod.fst := by
  have hkeys := (tree_iff.1 (tree_leavesFirst h)).1
  rw [leavesFirst, List.map_append] at hkeys
  rw [keys_drafts]
  exact fun key hbranch hleaf => (List.nodup_append.1 hkeys).2.2 key hleaf key hbranch rfl

/-- **A table comes about from its sections** at the end of the table around it. -/
theorem Regrows.table (h : Regrows entries) (htree : Tree entries) (hfocus : Focus path fill)
    (hkey : key ∉ before.map Prod.fst) (last : List String) :
    ∃ origin grown last',
      ((sections (path ++ [key]) entries).flatMap Section.statements).foldlM Growth.step?
        ⟨fill before, last⟩ = some ⟨fill (before ++ [(key, .table origin grown)]), last'⟩ ∧
      toEntries grown = leavesFirst entries := by
  have hpath : path ++ [key] ≠ [] := by simp
  rw [sections, List.flatMap_append, List.foldlM_append]
  by_cases hheader : entries.isEmpty || !(leaves entries).isEmpty
  · -- The table has a header, and the strings below it come before the tables in it.
    have hopened := hfocus.opened hkey
    have hown : ownSection (path ++ [key]) false entries =
        [⟨path ++ [key], false, leaves entries⟩] := by
      simp [ownSection, Section.hasHeader, htree.inlineEntries_eq, hheader]
    have hstatements : (ownSection (path ++ [key]) false entries).flatMap Section.statements =
        .openTable path key :: (leaves entries).map fun entry => .entry [] entry.1 entry.2 := by
      simp [hown, Section.statements]
    have hlines := foldlM_entries hopened [] (leaves entries)
      ((tree_iff.1 htree).1.sublist (List.filter_sublist.map Prod.fst))
    obtain ⟨grown, last', hrun, hgrown⟩ := h (drafts (leaves entries)) (path ++ [key]) hopened
      htree.keys_branches
    refine ⟨.opened, drafts (leaves entries) ++ grown, last', ?_, ?_⟩
    · rw [hstatements, List.foldlM_cons, step?_openTable hfocus hkey]
      exact (congrArg (· >>= _) hlines).trans hrun
    · rw [toEntries_append, toEntries_drafts, hgrown, leavesFirst]
  · -- The table has no header and is passed on the way to the first table in it.
    rw [Bool.or_eq_true, not_or, Bool.not_eq_true', Bool.not_eq_false] at hheader
    obtain ⟨hne, hleaves⟩ := hheader
    have hown : ownSection (path ++ [key]) false entries = [] := by
      simp [ownSection, Section.hasHeader, htree.inlineEntries_eq, hne, hleaves]
    obtain ⟨grown, last', hrun, hgrown⟩ := h [] last (hfocus.passed hkey)
      fun _ _ => List.not_mem_nil
    have htables : toEntries grown = leavesFirst entries := by
      rw [hgrown, leavesFirst, List.isEmpty_iff.1 hleaves, List.nil_append]
    refine ⟨.passed, grown, last', ?_, htables⟩
    cases grown with
    | nil =>
        rw [← htree.isEmpty_leavesFirst, ← htables] at hne
        exact absurd rfl hne
    | cons draft grown => rwa [hown]

/-- **The sections of the tables of a tree make these tables,** wherever it is. -/
theorem Tree.regrows (h : Tree entries) : Regrows entries := by
  induction h with
  | nil => exact fun _ last _ _ => ⟨[], last, by rw [List.append_nil]; rfl, rfl⟩
  | leaf _ _ ih => exact ih
  | @branch key inner rest hkey hinner _ ihinner ihrest =>
      intro path fill before last hfocus hkeys
      obtain ⟨hnew, hmore⟩ := List.forall_mem_cons.1 hkeys
      obtain ⟨origin, grown, last₁, hfirst, hgrown⟩ := ihinner.table hinner hfocus hnew last
      have hkeys' : ∀ k ∈ (branches rest).map Prod.fst,
          k ∉ (before ++ [(key, Draft.table origin grown)]).map Prod.fst := by
        intro k hk hmem
        rw [List.map_append, List.mem_append] at hmem
        rcases hmem with hmem | hmem
        · exact hmore k hk hmem
        · obtain rfl := List.mem_singleton.1 hmem
          exact hkey (mem_keys_of_branches hk)
      obtain ⟨grown', last₂, hrest, hgrown'⟩ := ihrest _ last₁ hfocus hkeys'
      refine ⟨(key, .table origin grown) :: grown', last₂, ?_, ?_⟩
      · rw [sectionsOf_branch, List.flatMap_append, List.foldlM_append, hfirst]
        rw [List.append_assoc] at hrest
        exact hrest
      · rw [toEntries, toValue, hgrown, hgrown']
        rfl

end

/-- **All sections make the document,** with its leaves first. -/
theorem Tree.foldlM_sections {entries : Table} (h : Tree entries) :
    ∃ grown, ((sections [] entries).flatMap Section.statements).foldlM Growth.step? {} =
        some grown ∧
      toEntries grown.entries = leavesFirst entries := by
  have hown : (ownSection [] false entries).flatMap Section.statements =
      (leaves entries).map fun entry => .entry [] entry.1 entry.2 := by
    simp [ownSection, h.inlineEntries_eq, Section.statements]
  have hlines := foldlM_entries Focus.root [] (leaves entries)
    ((tree_iff.1 h).1.sublist (List.filter_sublist.map Prod.fst))
  obtain ⟨grown, last, hrun, hgrown⟩ :=
    h.regrows (drafts (leaves entries)) [] Focus.root h.keys_branches
  refine ⟨⟨drafts (leaves entries) ++ grown, last⟩, ?_, ?_⟩
  · rw [sections, List.flatMap_append, List.foldlM_append, hown]
    exact (congrArg (· >>= _) hlines).trans hrun
  · rw [toEntries_append, toEntries_drafts, hgrown, leavesFirst]

end ConfigGraft.Toml
