import ConfigGraft.Proofs.Document.Content
import ConfigGraft.Proofs.Toml.RoundTrip
import ConfigGraft.Proofs.Yaml.RoundTrip

/-!
# Documents that read back

A document is ordinary if what stands in it can be told from its text again. What this asks of a
document differs from format to format. Nothing is asked of properties. A JSON document is ordinary
as soon as it was read from a text. In YAML and TOML, where values have more spellings than one, the
leaves have to be strings, and in YAML they may be truth values too. Setting texts keeps a document
ordinary, so all documents are ordinary that were made of the empty one.

The readers have bounds: a number of levels, keys that they take for the sign of something else, and
in YAML a first line that looks like a comment. A document within these bounds is called legible. An
ordinary document that is legible is written as a text that is read as the document, but for the
order of the entries in TOML, and a path finds in it what it found before.

## Main results

* `Document.ordinary_load` — where no file is there, what is loaded is ordinary;
* `Document.ordinary_setAll` — setting texts keeps a document ordinary;
* `Document.exists_parse_render` — **an ordinary document reads back, if it is legible;**
* `Document.get?_settled` — **and holds the same texts.**
-/

namespace ConfigGraft

/-! ### Ordinary mappings of YAML -/

namespace Yaml

/-- The keys of named entries are texts, and they differ. -/
theorem named_iff {entries : Mapping} :
    Named entries ↔
      (entries.map Prod.fst).Nodup ∧ ∀ key ∈ entries.map Prod.fst, ∃ name, key = .string name := by
  constructor
  · intro h
    induction h with
    | nil => exact ⟨.nil, List.forall_mem_nil _⟩
    | @cons name _ _ hkey _ ih =>
        exact ⟨List.nodup_cons.2 ⟨hkey, ih.1⟩, List.forall_mem_cons.2 ⟨⟨name, rfl⟩, ih.2⟩⟩
  · rintro ⟨hkeys, hnames⟩
    induction entries with
    | nil => exact .nil
    | cons entry rest ih =>
        obtain ⟨key, value⟩ := entry
        obtain ⟨hkey, hrest⟩ := List.nodup_cons.1 hkeys
        obtain ⟨⟨name, rfl⟩, hmore⟩ := List.forall_mem_cons.1 hnames
        exact .cons hkey (ih hrest hmore)

/-- The entries of a mapping stay named when a value is put at a key. -/
theorem Named.put {entries : Mapping} (h : Named entries) (segment : String) (v : Value) :
    Named (Nested.put segment v entries) := by
  obtain ⟨hkeys, hnames⟩ := named_iff.1 h
  refine named_iff.2 ⟨Nested.nodup_keys_put segment v hkeys, fun key hkey => ?_⟩
  rcases Nested.mem_keys_put.1 hkey with rfl | hold
  · exact ⟨segment, rfl⟩
  · exact hnames key hold

namespace Value

/-- A mapping stays ordinary when an ordinary value is put at a key. -/
theorem Ordinary.put {entries : Mapping} {v : Value} (h : (Value.mapping entries).Ordinary)
    (hv : v.Ordinary) (segment : String) :
    (Value.mapping (Nested.put segment v entries)).Ordinary := by
  cases h with
  | mapping hnamed hvalues =>
      refine .mapping (hnamed.put segment v) fun entry hentry => ?_
      rcases Nested.mem_put hentry with heq | hold
      · exact heq ▸ hv
      · exact hvalues entry hold

/-- The empty mapping is ordinary. -/
theorem ordinary_nil : (Value.mapping []).Ordinary := .mapping .nil (List.forall_mem_nil _)

/-- **A mapping stays ordinary when a text is set in it.** -/
theorem kept_ordinary : Nested.Kept fun es => (Value.mapping es).Ordinary where
  put_ofText segment text _ hes := hes.put (.string text) segment
  put_ofEntries segment _ _ hinner hes := hes.put hinner segment
  inside segment es hes := by
    cases hes with
    | mapping _ hvalues =>
        refine Nested.inside_of_forall_mem (fun es => (Value.mapping es).Ordinary) ordinary_nil
          (fun entry hentry inner hinner => ?_) segment
        have hvalue := hvalues entry hentry
        obtain ⟨key, value⟩ := entry
        -- Only a mapping shows entries, since nothing ordinary is under a tag.
        cases hvalue <;> cases hinner
        exact .mapping ‹_› ‹_›

end Value

end Yaml

namespace Document

open Yaml.Style

/-! ### Ordinary documents -/

/-- **Ordinary documents:** what stands in them can be told from their texts again. -/
inductive Ordinary : Document → Prop
  | properties (table : Properties) : Ordinary (.properties table)
  | json {entries : Json.Object} :
      (Json.Value.object entries).Regular → Ordinary (.json entries)
  | yaml {entries : Yaml.Mapping} :
      (Yaml.Value.mapping entries).Ordinary → Ordinary (.yaml entries)
  | toml {entries : Toml.Table} : Toml.Tree entries → Ordinary (.toml entries)

/-- The empty document is ordinary in every format. -/
theorem ordinary_empty (format : Format) : (empty format).Ordinary := by
  cases format with
  | yaml => exact .yaml Yaml.Value.ordinary_nil
  | json => exact .json Json.Value.regular_nil
  | properties => exact .properties _
  | toml => exact .toml .nil

/-- Setting a text keeps a document ordinary. -/
theorem ordinary_set {path : KeyPath} {text : String} {document next : Document} {changed : Bool}
    (h : document.Ordinary) (hset : document.set path text = .ok (next, changed)) :
    next.Ordinary := by
  cases h with
  | properties table =>
      cases hset
      exact .properties _
  | json hregular =>
      obtain ⟨entries, hentries, rfl⟩ := spells_json.set_eq_ok_iff.1 hset
      exact .json (Json.kept_regular.set hregular hentries)
  | yaml hordinary =>
      obtain ⟨entries, hentries, rfl⟩ := spells_yaml.set_eq_ok_iff.1 hset
      exact .yaml (Yaml.Value.kept_ordinary.set hordinary hentries)
  | toml htree =>
      obtain ⟨entries, hentries, rfl⟩ := spells_toml.set_eq_ok_iff.1 hset
      exact .toml (Toml.Tree.kept.set htree hentries)

/-- **Setting texts keeps a document ordinary.** -/
theorem ordinary_setAll {updates : List (KeyPath × String)} {document last : Document}
    {dirty : Bool} (h : document.Ordinary) (hset : document.setAll updates = .ok (last, dirty)) :
    last.Ordinary := by
  induction updates generalizing document dirty with
  | nil =>
      cases hset
      exact h
  | cons update rest ih =>
      obtain ⟨next, changed, more, hnext, hrest, -⟩ := setAll_cons_eq_ok.1 hset
      exact ih (ordinary_set h hnext) hrest

/-- What is loaded is ordinary where no file is there, and in two of the formats always. -/
theorem ordinary_load {format : Format} {disk : Disk} {path : String} {document : Document}
    (h : disk.has path = false ∨ format = .properties ∨ format = .json)
    (hload : load format disk path = .ok document) : document.Ordinary := by
  by_cases hthere : disk.has path = true
  · obtain ⟨place, content, hfind⟩ := exists_file_of_load hthere hload
    obtain ⟨text, hparse⟩ := parse_of_ofBytes? ((load_of_find hfind).1 hload)
    rcases h with hnone | rfl | rfl
    · rw [hthere] at hnone
      cases hnone
    · obtain ⟨table, -, rfl⟩ := map_eq_ok.1 hparse
      exact .properties table
    · obtain ⟨entries, hentries, rfl⟩ := map_eq_ok.1 hparse
      exact .json (Json.regular_of_parseJson hentries)
  · rw [load, if_neg hthere] at hload
    cases hload
    exact ordinary_empty format

/-! ### Legible documents -/

/-- **Legible documents** are within the bounds of the reader of their format. In JSON no object
begins with the name that marks a number, and no table of TOML with the key that marks a date or
time, once its strings stand first. Neither these nor the mappings of YAML are nested too deep. The
first key of a YAML document does not look like a comment where it is written plain. -/
def Legible : Document → Prop
  | .properties _ => True
  | .json entries =>
    (Json.Value.object entries).Unmarked ∧ (Json.Value.object entries).depth ≤ 127
  | .toml entries =>
    Toml.Unmarked (Toml.leavesFirst entries) ∧ Toml.levels entries < Toml.Statement.limit
  | .yaml entries =>
    (Yaml.Value.mapping entries).levels ≤ Yaml.Value.depthLimit ∧
      ∀ key value rest, entries = (.string key, value) :: rest →
        ofText false key.toList = .plain → looksComment key.toList = false

/-- The document as it is read from its text: in TOML with its leaves first. -/
def settled : Document → Document
  | .toml entries => .toml (Toml.leavesFirst entries)
  | document => document

variable {document : Document}

/-- **A path finds in the settled document what it found before.** -/
theorem get?_settled (h : document.Ordinary) (path : KeyPath) :
    document.settled.get? path = document.get? path := by
  cases h with
  | properties | json | yaml => rfl
  | toml htree => exact htree.get?_leavesFirst path.segments

/-- The settled document is ordinary again. -/
theorem ordinary_settled (h : document.Ordinary) : document.settled.Ordinary := by
  cases h with
  | properties table => exact .properties table
  | json hregular => exact .json hregular
  | yaml hordinary => exact .yaml hordinary
  | toml htree => exact .toml (Toml.tree_leavesFirst htree)

/-- A TOML document whose values are strings and tables is read with its leaves first. -/
theorem parse_render_tree {entries : Toml.Table} (h : Toml.Tree entries)
    (hlegible : (Document.toml entries).Legible) :
    parse .toml (String.ofList (Toml.render entries)) = .ok (.toml (Toml.leavesFirst entries)) := by
  obtain ⟨hunmarked, hlevels⟩ := hlegible
  have hsettled := (Toml.tree_leavesFirst h).settleEntries?_eq_self_iff.2 hunmarked
  rw [parse, parseToml, h.read?_render hlevels, hsettled]
  rfl

/-- An ordinary YAML document is written, and is read as it is. -/
theorem exists_parse_render_mapping {entries : Yaml.Mapping}
    (h : (Yaml.Value.mapping entries).Ordinary) (hlegible : (Document.yaml entries).Legible) :
    ∃ written, Yaml.render? entries = some written ∧
      parse .yaml (String.ofList written) = .ok (.yaml entries) := by
  obtain ⟨hlevels, hfirst⟩ := hlegible
  obtain ⟨written, hwritten, hread⟩ := Yaml.Value.read?_render h hlevels
  refine ⟨written, hwritten, ?_⟩
  have hblank : isBlankYaml written = false := by
    refine eq_false_of_ne_true fun hblank => ?_
    obtain ⟨key, value, rest, heq, hplain, hcomment⟩ :=
      exists_of_isBlankYaml_render h hwritten hblank
    rw [hfirst key value rest heq hplain] at hcomment
    cases hcomment
  rw [parse, parseYaml, String.toList_ofList, hblank, hread]
  rfl

/-- **An ordinary document reads back, if it is legible.** It can be written, and its text is read
as the settled document. -/
theorem exists_parse_render (h : document.Ordinary) (hlegible : document.Legible) :
    ∃ text, document.render? = some text ∧
      parse document.format text = .ok document.settled := by
  cases h with
  | properties table => exact ⟨_, rfl, readsBack_properties table _ rfl⟩
  | json hregular => exact ⟨_, rfl, readsBack_json hregular hlegible.1 hlegible.2 _ rfl⟩
  | yaml hordinary =>
      obtain ⟨written, hwritten, hparse⟩ := exists_parse_render_mapping hordinary hlegible
      exact ⟨_, congrArg (Option.map String.ofList) hwritten, hparse⟩
  | toml htree => exact ⟨_, rfl, parse_render_tree htree hlegible⟩

end Document

end ConfigGraft
