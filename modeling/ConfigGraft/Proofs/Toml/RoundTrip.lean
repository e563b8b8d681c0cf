import ConfigGraft.Proofs.Document.Updates
import ConfigGraft.Proofs.Toml.Growth

/-!
# TOML that is read back

A document into which any texts were set is a tree. It is written with the strings of each table
before the tables in it, and is read back in that order; from there on the layout stays as it is.

The reader has a bound and a reserved key. It takes no header with 80 keys or more, and it takes a
table for a date or time if the first key in it is the one that marks these, whatever stands there.
Nothing keeps a text from being set at that key, and it is written like any other.

## Main results

* `Tree.read?_render` — a tree is read back up to its marked tables;
* `Tree.settleEntries?_eq_self_iff` — no table is taken for a date or time if none is marked;
* `Document.parse_render_toml` — **a TOML document reads back with its leaves first.**
-/

namespace ConfigGraft

namespace Toml

/-! ### Reading a tree -/

variable {entries : Table}

/-- The section of a table itself is simple, if its path is not too long. -/
theorem Tree.simple_of_mem_ownSection (h : Tree entries) {path : List String}
    (hlength : path.length < Statement.limit) : ∀ s ∈ ownSection path false entries, s.Simple := by
  have hstrings : ∀ entry ∈ inlineEntries entries, ∃ text, entry.2 = .string text := by
    rintro ⟨key, value⟩ hmem
    rw [h.inlineEntries_eq, leaves, List.mem_filter] at hmem
    have hvalue : TreeValue value := (tree_iff.1 h).2 _ hmem.1
    cases hvalue with
    | leaf text => exact ⟨text, rfl⟩
    | branch _ => cases hmem.2
  intro s hs
  rw [ownSection] at hs
  split at hs
  · obtain rfl := List.mem_singleton.1 hs
    exact ⟨rfl, hlength, hstrings⟩
  · cases hs

/-- The sections of the tables in a tree are simple, if there are not too many levels. -/
theorem Tree.simple_of_mem_sectionsOf (h : Tree entries) {path : List String}
    (hlevels : path.length + levels entries < Statement.limit) :
    ∀ s ∈ sectionsOf path entries, s.Simple := by
  induction h generalizing path with
  | nil => nofun
  | leaf _ _ ih =>
      rw [levels] at hlevels
      exact ih (by omega)
  | @branch key inner rest _ hinner _ ihinner ihrest =>
      rw [levels, Value.levels] at hlevels
      rw [sectionsOf_branch, sections, List.forall_mem_append, List.forall_mem_append]
      have hlength : (path ++ [key]).length = path.length + 1 := List.length_append
      refine ⟨⟨?_, ihinner (by omega)⟩, ihrest (by omega)⟩
      exact hinner.simple_of_mem_ownSection (by omega)

/-- **A tree is read back** with its leaves first, up to the tables that stand for a date or
time. -/
theorem Tree.read?_render (h : Tree entries) (hlevels : levels entries < Statement.limit) :
    read? (String.ofList (render entries)) = settleEntries? (leavesFirst entries) := by
  have hsimple : ∀ s ∈ sections [] entries, s.Simple := by
    rw [sections, List.forall_mem_append]
    refine ⟨h.simple_of_mem_ownSection (by decide), h.simple_of_mem_sectionsOf ?_⟩
    rwa [List.length_nil, Nat.zero_add]
  obtain ⟨grown, hrun, hgrown⟩ := h.foldlM_sections
  rw [read?, String.toList_ofList, h.render_eq_sectionsText, readAll?_sectionsText hsimple]
  exact (congrArg (· >>= _) hrun).trans (congrArg settleEntries? hgrown)

/-! ### Marked tables -/

/-- **Unmarked** trees: no table in them begins with the key that marks a date or time. That key
may be anywhere else, and in the tree itself also at the start. -/
inductive Unmarked : Table → Prop
  | nil : Unmarked []
  | leaf {key text : String} {rest : Table} :
      Unmarked rest → Unmarked ((key, .string text) :: rest)
  | branch {key : String} {inner rest : Table} :
      inner.head?.map Prod.fst ≠ some datetimeMark → Unmarked inner → Unmarked rest →
      Unmarked ((key, .table inner) :: rest)

/-- Entries are settled as they are if the first is, and the rest. -/
theorem settleEntries?_cons_eq_self_iff {key : String} {value : Value} {rest : Table} :
    settleEntries? ((key, value) :: rest) = some ((key, value) :: rest) ↔
      value.settle? = some value ∧ settleEntries? rest = some rest := by
  rw [settleEntries?]
  cases value.settle? with
  | none => simp
  | some value' =>
      constructor
      · intro h
        obtain ⟨rest', hrest, heq⟩ := Option.map_eq_some_iff.1 h
        cases heq
        exact ⟨rfl, hrest⟩
      · rintro ⟨heq, hrest⟩
        rw [Option.some.inj heq, hrest]
        rfl

/-- A table that is not marked stays one. -/
theorem Value.settle?_table (hmark : entries.head?.map Prod.fst ≠ some datetimeMark) :
    (Value.table entries).settle? = (settleEntries? entries).map .table := by
  cases entries with
  | nil => rfl
  | cons entry rest =>
      obtain ⟨key, value⟩ := entry
      have hkey : key ≠ datetimeMark := fun heq => hmark (congrArg some heq)
      rw [settleEntries?]
      cases hvalue : value.settle? <;> simp [Value.settle?, hkey, hvalue, Function.comp_def]

/-- A table that is marked does not. -/
theorem Value.settle?_table_ne (hmark : entries.head?.map Prod.fst = some datetimeMark) :
    (Value.table entries).settle? ≠ some (.table entries) := by
  cases entries with
  | nil => cases hmark
  | cons entry rest =>
      obtain ⟨key, value⟩ := entry
      obtain rfl : key = datetimeMark := Option.some.inj hmark
      cases value <;> simp [Value.settle?]

/-- A table is settled as it is if its first key is not the reserved one and its entries are settled
as they are. -/
theorem Value.settle?_table_eq_self_iff :
    (Value.table entries).settle? = some (.table entries) ↔
      entries.head?.map Prod.fst ≠ some datetimeMark ∧ settleEntries? entries = some entries := by
  by_cases hmark : entries.head?.map Prod.fst = some datetimeMark
  · exact ⟨fun h => absurd h (settle?_table_ne hmark), fun h => absurd hmark h.1⟩
  · simp [settle?_table hmark, hmark]

/-- **No table is taken for a date or time** exactly if none is marked. -/
theorem Tree.settleEntries?_eq_self_iff (h : Tree entries) :
    settleEntries? entries = some entries ↔ Unmarked entries := by
  induction h with
  | nil => exact ⟨fun _ => .nil, fun _ => rfl⟩
  | leaf _ _ ih =>
      rw [settleEntries?_cons_eq_self_iff, ih]
      constructor
      · exact fun hrest => .leaf hrest.2
      · intro hunmarked
        cases hunmarked with
        | leaf hrest => exact ⟨rfl, hrest⟩
  | branch _ _ _ ihinner ihrest =>
      rw [settleEntries?_cons_eq_self_iff, Value.settle?_table_eq_self_iff, ihinner, ihrest]
      constructor
      · exact fun hunmarked => .branch hunmarked.1.1 hunmarked.1.2 hunmarked.2
      · intro hunmarked
        cases hunmarked with
        | branch hmark hinner hrest => exact ⟨⟨hmark, hinner⟩, hrest⟩

end Toml

namespace Document

open Toml

/-! ### Documents -/

/-- **A TOML document reads back with its leaves first.** Any texts can be set in the empty
document. If the tables of what comes of it are nested less than 80 deep, then it is written as a
text that is read as the same document with the strings of each table before the tables in it, and
both otherwise in the order that they had, exactly if none of its tables then begins with the key
that marks a date or time. That document has the same text at each path, and is written in the same
way. -/
theorem parse_render_toml (updates : List (KeyPath × String)) :
    ∃ entries dirty, (empty .toml).setAll updates = .ok (.toml entries, dirty) ∧
      (levels entries < Statement.limit →
        ∃ written, (Document.toml entries).render? = some written ∧
          (parse .toml written = .ok (.toml (leavesFirst entries)) ↔
            Unmarked (leavesFirst entries)) ∧
          (∀ path, (Document.toml (leavesFirst entries)).get? path =
            (Document.toml entries).get? path) ∧
          (Document.toml (leavesFirst entries)).render? = some written) := by
  obtain ⟨entries, dirty, hset, htree⟩ :=
    spells_toml.exists_setAll (fun _ => rfl) Tree.kept.set .nil updates
  refine ⟨entries, dirty, hset, fun hlevels => ⟨_, rfl, ?_, ?_, ?_⟩⟩
  · rw [← (tree_leavesFirst htree).settleEntries?_eq_self_iff, ← htree.read?_render hlevels, parse,
      parseToml]
    cases read? (String.ofList (render entries)) <;> simp [Except.map]
  · exact fun path => htree.get?_leavesFirst path.segments
  · rw [render?, htree.render_leavesFirst]

/-- Updates that leave a string behind a table, and a text that takes a string of several lines. -/
def sampleUpdates : List (KeyPath × String) :=
  [(⟨["server", "host name"], by simp, by simp, by simp⟩, "'\n\""),
    (⟨["title"], by simp, by simp, by simp⟩, "x")]

/-- What the updates make of the empty document. -/
def sampleTable : Table :=
  [("server", .table [("host name", .string "'\n\"")]), ("title", .string "x")]

/-- The sample is read back with the string before the table. -/
theorem parse_render_toml_sampleUpdates :
    (empty .toml).setAll sampleUpdates = .ok (.toml sampleTable, true) ∧
    levels sampleTable < Statement.limit ∧
    ∃ written, (Document.toml sampleTable).render? = some written ∧
      parse .toml written =
        .ok (.toml [("title", .string "x"),
          ("server", .table [("host name", .string "'\n\"")])]) := by
  have hset : (empty .toml).setAll sampleUpdates = .ok (.toml sampleTable, true) := rfl
  have hlevels : levels sampleTable < Statement.limit := by decide
  have hunmarked : Unmarked (leavesFirst sampleTable) :=
    .leaf (.branch (by decide) (.leaf .nil) .nil)
  obtain ⟨entries, dirty, hset', hback⟩ := parse_render_toml sampleUpdates
  cases hset.symm.trans hset'
  obtain ⟨written, hwritten, hparse, -, -⟩ := hback hlevels
  exact ⟨hset, hlevels, written, hwritten, hparse.2 hunmarked⟩

/-! ### A document that cannot be read -/

/-- An update at a key that the format has reserved. -/
def reservedUpdate : KeyPath × String :=
  (⟨["a", "$__toml_private_datetime"], by simp, by simp, by simp⟩, "x")

/-- What the update makes of the empty document. -/
def reservedTable : Table := [("a", .table [("$__toml_private_datetime", .string "x")])]

/-- A document that a text was set in, and that is written as a text that cannot be read. -/
theorem parse_render_toml_reservedUpdate :
    (empty .toml).setAll [reservedUpdate] = .ok (.toml reservedTable, true) ∧
    levels reservedTable < Statement.limit ∧
    ∃ written, (Document.toml reservedTable).render? = some written ∧
      ∀ document, parse .toml written ≠ .ok document := by
  have htree : Tree reservedTable :=
    .branch List.not_mem_nil (.leaf List.not_mem_nil .nil) .nil
  have hlevels : levels reservedTable < Statement.limit := by decide
  have hnone : settleEntries? (leavesFirst reservedTable) = none := by rfl
  refine ⟨rfl, hlevels, _, rfl, ?_⟩
  rw [parse, parseToml, htree.read?_render hlevels, hnone]
  nofun

end Document

end ConfigGraft
