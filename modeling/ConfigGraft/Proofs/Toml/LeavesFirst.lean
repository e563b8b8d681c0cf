import ConfigGraft.Proofs.Document.Tree
import ConfigGraft.Toml.Reader
import ConfigGraft.Toml.Writer

/-!
# Tables with their leaves first

A table is written with its strings before the tables in it, so this is the order in which it is
read back. The order among the strings and that among the tables stay, and a path finds what it
found. To write a table and to write it with its leaves first is the same.

What is said here is about trees, in which there are strings and tables and nothing else.

## Main results

* `Tree.kept` — a tree stays one when a text is set in it;
* `Tree.render_eq_sectionsText` — a tree is written as its sections;
* `Tree.render_leavesFirst` — **with its leaves first it is written in the same way;**
* `Tree.get?_leavesFirst` — **and holds the same texts.**
-/

namespace ConfigGraft.Toml

/-! ### Trees -/

/-- **Trees** of strings and tables, in which each key of a table is there once. -/
inductive Tree : Table → Prop
  | nil : Tree []
  | leaf {key text : String} {rest : Table} :
      key ∉ rest.map Prod.fst → Tree rest → Tree ((key, .string text) :: rest)
  | branch {key : String} {entries rest : Table} :
      key ∉ rest.map Prod.fst → Tree entries → Tree rest → Tree ((key, .table entries) :: rest)

mutual

/-- The levels of tables in a value, itself included. -/
def Value.levels : Value → Nat
  | .table entries => levels entries + 1
  | _ => 0

/-- The levels of tables in a document, below the document itself. -/
def levels : List (String × Value) → Nat
  | [] => 0
  | (_, value) :: rest => max value.levels (levels rest)

end

/-- The entries of a table that are no tables. -/
def leaves (entries : Table) : Table := entries.filter fun entry => !entry.2.isTable

mutual

/-- The value with the leaves first in all tables in it. -/
def Value.leavesFirst : Value → Value
  | .table entries => .table (leaves entries ++ branches entries)
  | value => value

/-- The tables of a table, each with its leaves first. -/
def branches : List (String × Value) → Table
  | [] => []
  | (key, value) :: rest =>
    if value.isTable then (key, value.leavesFirst) :: branches rest else branches rest

end

/-- **A table with its leaves first,** and so all tables in it. -/
def leavesFirst (entries : Table) : Table := leaves entries ++ branches entries

/-- A text in front stays in front. -/
theorem leavesFirst_leaf (key text : String) (rest : Table) :
    leavesFirst ((key, .string text) :: rest) = (key, .string text) :: leavesFirst rest := rfl

/-- A table in front goes behind all texts. -/
theorem leavesFirst_branch (key : String) (entries rest : Table) :
    leavesFirst ((key, .table entries) :: rest) =
      leaves rest ++ (key, .table (leavesFirst entries)) :: branches rest := rfl

/-! ### Keys and values -/

/-- A value that can stand in a tree. -/
inductive TreeValue : Value → Prop
  | leaf (text : String) : TreeValue (.string text)
  | branch {entries : Table} : Tree entries → TreeValue (.table entries)

/-- A tree stays one with a new key in front. -/
theorem Tree.cons {key : String} {value : Value} {rest : Table} (hkey : key ∉ rest.map Prod.fst)
    (hvalue : TreeValue value) (hrest : Tree rest) : Tree ((key, value) :: rest) := by
  cases hvalue with
  | leaf => exact .leaf hkey hrest
  | branch hentries => exact .branch hkey hentries hrest

/-- A table is a tree if its keys are distinct and its values can stand in one. -/
theorem tree_iff {entries : Table} :
    Tree entries ↔ (entries.map Prod.fst).Nodup ∧ ∀ entry ∈ entries, TreeValue entry.2 := by
  constructor
  · intro h
    induction h with
    | nil => exact ⟨.nil, nofun⟩
    | leaf hkey _ ih =>
        exact ⟨List.nodup_cons.2 ⟨hkey, ih.1⟩, List.forall_mem_cons.2 ⟨.leaf _, ih.2⟩⟩
    | branch hkey hinner _ _ ih =>
        exact ⟨List.nodup_cons.2 ⟨hkey, ih.1⟩, List.forall_mem_cons.2 ⟨.branch hinner, ih.2⟩⟩
  · rintro ⟨hkeys, hvalues⟩
    induction entries with
    | nil => exact .nil
    | cons entry rest ih =>
        obtain ⟨hkey, hrest⟩ := List.nodup_cons.1 hkeys
        obtain ⟨hvalue, hmore⟩ := List.forall_mem_cons.1 hvalues
        exact .cons hkey hvalue (ih hrest hmore)

/-- The keys stay, in another order. -/
theorem keys_leavesFirst_perm (entries : Table) :
    ((leavesFirst entries).map Prod.fst).Perm (entries.map Prod.fst) := by
  induction entries with
  | nil => exact .nil
  | cons entry rest ih =>
      obtain ⟨key, value⟩ := entry
      cases value with
      | table inner =>
          have hlast : (leavesFirst ((key, .table inner) :: rest)).map Prod.fst =
              (leaves rest).map Prod.fst ++ key :: (branches rest).map Prod.fst :=
            List.map_append
          rw [hlast]
          refine List.perm_middle.trans (.cons key ?_)
          rwa [leavesFirst, List.map_append] at ih
      | _ => exact .cons key ih

/-- The keys of the branches are keys of the entries. -/
theorem mem_keys_of_branches {entries : Table} {key : String}
    (h : key ∈ (branches entries).map Prod.fst) : key ∈ entries.map Prod.fst := by
  refine (keys_leavesFirst_perm entries).mem_iff.1 ?_
  rw [leavesFirst, List.map_append]
  exact List.mem_append_right _ h

/-- A tree stays one with its leaves first. -/
theorem tree_leavesFirst {entries : Table} (h : Tree entries) : Tree (leavesFirst entries) := by
  induction h with
  | nil => exact .nil
  | @leaf key text rest hkey _ ih =>
      exact .leaf (fun hmem => hkey ((keys_leavesFirst_perm rest).mem_iff.1 hmem)) ih
  | @branch key inner rest hkey hinner hrest ihinner ihrest =>
      refine tree_iff.2 ⟨?_, ?_⟩
      · exact (keys_leavesFirst_perm _).nodup_iff.2 (tree_iff.1 (.branch hkey hinner hrest)).1
      · have hvalues := (tree_iff.1 ihrest).2
        rw [leavesFirst, List.forall_mem_append] at hvalues
        rw [leavesFirst_branch, List.forall_mem_append, List.forall_mem_cons]
        exact ⟨hvalues.1, .branch ihinner, hvalues.2⟩

/-! ### Setting a text -/

namespace Tree

variable {entries : Table}

/-- A tree stays one when a value that can stand in it is put at a key. -/
theorem put {segment : String} {value : Value} (h : Tree entries) (hvalue : TreeValue value) :
    Tree (Nested.put segment value entries) := by
  obtain ⟨hkeys, hvalues⟩ := tree_iff.1 h
  refine tree_iff.2 ⟨Nested.nodup_keys_put segment value hkeys, fun entry hentry => ?_⟩
  rcases Nested.mem_put hentry with heq | hold
  · exact heq ▸ hvalue
  · exact hvalues entry hold

/-- The table at a key of a tree, or an empty one in its place, is a tree. -/
theorem inside (h : Tree entries) (segment : String) :
    Tree (Nested.inside (Nested.find? segment entries)) := by
  induction h with
  | nil => exact .nil
  | leaf _ _ ih =>
      rw [Nested.find?]
      split
      · exact .nil
      · exact ih
  | branch _ hentries _ _ ih =>
      rw [Nested.find?]
      split
      · exact hentries
      · exact ih

/-- **A tree stays one when a text is set in it.** -/
theorem kept : Nested.Kept Tree where
  put_ofText _ text _ hes := hes.put (.leaf text)
  put_ofEntries _ _ _ hinner hes := hes.put (.branch hinner)
  inside segment _ hes := hes.inside segment

end Tree

/-! ### Texts -/

section

variable {entries : Table}

/-- What is not found in front is looked for behind. -/
theorem find?_append (segment : String) (front back : Table) :
    Nested.find? segment (front ++ back) =
      (Nested.find? segment front).or (Nested.find? segment back) := by
  induction front with
  | nil => rfl
  | cons entry front ih =>
      rw [List.cons_append, Nested.find?, Nested.find?]
      split
      · rfl
      · exact ih

/-- Nothing is found under what is no key. -/
theorem find?_eq_none {segment : String} (h : segment ∉ entries.map Prod.fst) :
    Nested.find? segment entries = none := by
  induction entries with
  | nil => rfl
  | cons entry rest ih =>
      obtain ⟨key, value⟩ := entry
      rw [List.map_cons, List.mem_cons, not_or] at h
      have hne : ¬ (segment == key) = true := fun heq => h.1 (beq_iff_eq.1 heq)
      exact (if_neg hne).trans (ih h.2)

/-- What is found at a key, once its table has its leaves first. -/
theorem Tree.find?_leavesFirst (h : Tree entries) (segment : String) :
    Nested.find? segment (leavesFirst entries) =
      (Nested.find? segment entries).map Value.leavesFirst := by
  induction h with
  | nil => rfl
  | @leaf key text rest hkey _ ih =>
      rw [leavesFirst_leaf, Nested.find?, Nested.find?]
      split
      · rfl
      · exact ih
  | @branch key inner rest hkey _ _ _ ih =>
      rw [leavesFirst_branch, find?_append, Nested.find?, Nested.find?]
      split
      · rename_i hsegment
        obtain rfl : segment = key := beq_iff_eq.1 hsegment
        have hleaves : segment ∉ (leaves rest).map Prod.fst := fun hmem =>
          hkey ((List.filter_sublist.map Prod.fst).subset hmem)
        rw [find?_eq_none hleaves]
        rfl
      · rw [← find?_append]
        exact ih

/-- **A path finds the same text,** once each table has its leaves first. -/
theorem Tree.get?_leavesFirst (h : Tree entries) (path : List String) :
    Nested.get? path (leavesFirst entries) = Nested.get? path entries := by
  have htext (old? : Option Value) :
      (old?.map Value.leavesFirst).bind Nested.text? = old?.bind Nested.text? := by
    rcases old? with - | value
    · rfl
    · cases value <;> rfl
  induction path generalizing entries with
  | nil => rfl
  | cons segment more ih =>
      cases more with
      | nil => rw [Nested.get?, h.find?_leavesFirst, htext, Nested.get?]
      | cons next more =>
          rw [Nested.get?, Nested.get?, h.find?_leavesFirst]
          rcases hfind : Nested.find? segment entries with - | value
          · rfl
          · cases value with
            | table inner =>
                have hinner : Tree (Nested.inside (some (.table inner))) :=
                  hfind ▸ h.inside segment
                exact ih hinner
            | _ => rfl

end

/-! ### Sections -/

/-- The sections of a table at a path. -/
def sections (path : List String) (entries : Table) : List Section :=
  ownSection path false entries ++ sectionsOf path entries

section

variable {entries : Table}

/-- The sections of the entries behind follow those of the entries in front. -/
theorem sectionsOf_append (path : List String) (front back : Table) :
    sectionsOf path (front ++ back) = sectionsOf path front ++ sectionsOf path back := by
  induction front with
  | nil => rfl
  | cons entry front ih =>
      obtain ⟨key, value⟩ := entry
      rw [List.cons_append, sectionsOf, ih, sectionsOf, List.append_assoc]

/-- The sections of a table stand before those of the entries behind it. -/
theorem sectionsOf_branch (path : List String) (key : String) (inner rest : Table) :
    sectionsOf path ((key, .table inner) :: rest) =
      sections (path ++ [key]) inner ++ sectionsOf path rest := rfl

/-- A table is written by itself in the same way, if the same strings are in it. -/
theorem ownSection_congr {entries' : Table} (path : List String)
    (hinline : inlineEntries entries' = inlineEntries entries)
    (hempty : entries'.isEmpty = entries.isEmpty) :
    ownSection path false entries' = ownSection path false entries := by
  rw [ownSection, ownSection, hinline, hempty]

namespace Tree

/-- The entries in the lines of a tree are its leaves. -/
theorem inlineEntries_eq (h : Tree entries) : inlineEntries entries = leaves entries := by
  induction h with
  | nil => rfl
  | leaf _ _ ih => exact congrArg (_ :: ·) ih
  | branch _ _ _ _ ih => exact ih

/-- The strings of a table have no sections. -/
theorem sectionsOf_leaves (h : Tree entries) (path : List String) :
    sectionsOf path (leaves entries) = [] := by
  induction h with
  | nil => rfl
  | leaf _ _ ih => exact ih
  | branch _ _ _ _ ih => exact ih

/-- They are the same with the leaves first. -/
theorem inlineEntries_leavesFirst (h : Tree entries) :
    inlineEntries (leavesFirst entries) = inlineEntries entries := by
  induction h with
  | nil => rfl
  | leaf _ _ ih => exact congrArg (_ :: ·) ih
  | branch _ _ _ _ ih =>
      rw [leavesFirst, inlineEntries, List.filter_append] at ih
      rw [leavesFirst_branch, inlineEntries, List.filter_append]
      exact ih

/-- With the leaves first, no table becomes empty and no empty one is filled. -/
theorem isEmpty_leavesFirst (h : Tree entries) :
    (leavesFirst entries).isEmpty = entries.isEmpty := by
  cases h with
  | nil => rfl
  | leaf _ _ => rfl
  | branch _ _ _ => rw [leavesFirst_branch]; simp

/-- The sections are the same with the leaves first. -/
theorem sectionsOf_leavesFirst (h : Tree entries) (path : List String) :
    sectionsOf path (leavesFirst entries) = sectionsOf path entries := by
  induction h generalizing path with
  | nil => rfl
  | leaf _ _ ih => exact ih path
  | @branch key inner rest _ hinner hrest ihinner ihrest =>
      have hown : sections (path ++ [key]) (leavesFirst inner) =
          sections (path ++ [key]) inner := by
        rw [sections, ihinner, ownSection_congr _ hinner.inlineEntries_leavesFirst
          hinner.isEmpty_leavesFirst, sections]
      have hmore : sectionsOf path (branches rest) = sectionsOf path rest := by
        rw [← ihrest path, leavesFirst, sectionsOf_append, hrest.sectionsOf_leaves, List.nil_append]
      rw [leavesFirst_branch, sectionsOf_append, hrest.sectionsOf_leaves, List.nil_append,
        sectionsOf_branch, sectionsOf_branch, hown, hmore]

/-- **A table has the same sections** with its leaves first. -/
theorem sections_leavesFirst (h : Tree entries) (path : List String) :
    sections path (leavesFirst entries) = sections path entries := by
  rw [sections, h.sectionsOf_leavesFirst, ownSection_congr _ h.inlineEntries_leavesFirst
    h.isEmpty_leavesFirst, sections]

/-- The order in which a table below a document is written is that of its leaves first. -/
theorem ordered_arrangeEntries (h : Tree entries) :
    ordered (arrangeEntries entries) = leavesFirst entries := by
  have hparts : (arrangeEntries entries).filter (fun e => !e.2.isTable && !e.2.hasTable) =
        leaves entries ∧
      (arrangeEntries entries).filter (fun e => e.2.hasTable) = [] ∧
      (arrangeEntries entries).filter (fun e => e.2.isTable) = branches entries := by
    induction h with
    | nil => exact ⟨rfl, rfl, rfl⟩
    | leaf _ _ ih => exact ⟨congrArg (_ :: ·) ih.1, ih.2.1, ih.2.2⟩
    | @branch key inner rest _ _ _ ihinner ihrest =>
        obtain ⟨hleaves, hrows, htables⟩ := ihinner
        have hfirst : ordered (arrangeEntries inner) = leavesFirst inner := by
          rw [ordered, hleaves, hrows, htables, List.append_nil, leavesFirst]
        refine ⟨ihrest.1, ihrest.2.1, ?_⟩
        rw [arrangeEntries, Value.arrange, hfirst]
        exact congrArg (_ :: ·) ihrest.2.2
  rw [ordered, hparts.1, hparts.2.1, hparts.2.2, List.append_nil, leavesFirst]

/-- They are the same after arranging. -/
theorem sectionsOf_arrangeEntries (h : Tree entries) (path : List String) :
    sectionsOf path (arrangeEntries entries) = sectionsOf path entries := by
  induction h with
  | nil => rfl
  | leaf _ _ ih => exact ih
  | @branch key inner rest _ hinner _ _ ih =>
      rw [arrangeEntries, Value.arrange, hinner.ordered_arrangeEntries, sectionsOf_branch,
        sectionsOf_branch, hinner.sections_leavesFirst, ih]

/-- So are the entries in the lines. -/
theorem inlineEntries_arrangeEntries (h : Tree entries) :
    inlineEntries (arrangeEntries entries) = inlineEntries entries := by
  induction h with
  | nil => rfl
  | leaf _ _ ih => exact congrArg (_ :: ·) ih
  | branch _ _ _ _ ih => exact ih

/-- **A tree is written as its sections.** -/
theorem render_eq_sectionsText (h : Tree entries) :
    render entries = sectionsText true (sections [] entries) := by
  have hempty : (arrangeEntries entries).isEmpty = entries.isEmpty := by
    cases entries <;> rfl
  rw [render, sections, h.sectionsOf_arrangeEntries,
    ownSection_congr _ h.inlineEntries_arrangeEntries hempty]

end Tree

/-- **With its leaves first a tree is written in the same way.** -/
theorem Tree.render_leavesFirst (h : Tree entries) :
    render (leavesFirst entries) = render entries := by
  rw [(tree_leavesFirst h).render_eq_sectionsText, h.sections_leavesFirst, h.render_eq_sectionsText]

end

end ConfigGraft.Toml
