import ConfigGraft.Master
import ConfigGraft.Proofs.Yaml.RoundTrip

/-!
# Master configurations are read back

A master configuration is written as a document of texts, truth values, sequences and mappings.
Every part of it is read from the node of the value that it is written as: the text of a file name
or a path, the items of a list, the fields of a mapping by their keys. A new text is written in a
style that keeps its meaning, so it comes back as the same text, also where it looks like a number
or a truth value. The flags of the policy stand beside the other fields. They are known by their
keys, and nothing else is written.

## Main results

* `MasterConfig.readsAs_change`, `MasterConfig.readsAs_file` — the parts of a configuration are read
  from what they are written as;
* `MasterConfig.readsAs_toYaml` — so is the configuration, whatever aliases a document may have;
* `MasterConfig.parse?_render_toYaml` — **a configuration is read back from its text.**
-/

namespace ConfigGraft.MasterConfig

open Yaml

variable {src : Source} {α : Type} {read? : Reader α} {v : Value} {a : α}

/-- Whether something is read from the node of a value, and no alias is followed for that. -/
def ReadsAs (read? : Reader α) (v : Value) (a : α) : Prop :=
  ∀ jumps, read? v.node jumps = some (a, jumps)

/-! ### Parts of a document -/

/-- A text is read as itself. -/
theorem readsAs_text (s : String) : ReadsAs src.readText? (.string s) s := by
  intro jumps
  have hread : src.readText? (Value.string s).node jumps =
      some (String.ofList s.toList, jumps) := rfl
  rw [hread, String.ofList_toList]

/-- Written items are read one by one, with no jump. -/
theorem readItems?_map {write : α → Value} {items : List α}
    (h : ∀ item ∈ items, ReadsAs read? (write item) item) (jumps : Nat) :
    Source.readItems? read? (itemsNodes (items.map write)) jumps = some (items, jumps) := by
  induction items with
  | nil => rfl
  | cons item rest ih =>
      obtain ⟨hitem, hrest⟩ := List.forall_mem_cons.1 h
      rw [List.map_cons, itemsNodes, Source.readItems?, hitem]
      simp only [ih hrest]
      rfl

/-- **A list is read from the sequence of its items.** -/
theorem readsAs_list {write : α → Value} {items : List α}
    (h : ∀ item ∈ items, ReadsAs read? (write item) item) :
    ReadsAs (src.readList? read?) (.sequence (items.map write)) items :=
  fun jumps => readItems?_map h jumps

/-- Entries with texts for keys. -/
def ofFields (fields : List (String × Value)) : Mapping :=
  fields.map fun (key, v) => (.string key, v)

/-- The fields that stand in the nodes of such entries. -/
def nodeFields (fields : List (String × Value)) : List (String × Node Nat) :=
  fields.map fun (key, v) => (key, v.node)

/-- The keys of a written mapping are its fields. -/
theorem readKeys?_ofFields (fields : List (String × Value)) (jumps : Nat) :
    src.readKeys? (entriesNodes (ofFields fields)) jumps = some (nodeFields fields, jumps) := by
  induction fields with
  | nil => rfl
  | cons field rest ih =>
      obtain ⟨key, v⟩ := field
      rw [ofFields, List.map_cons, entriesNodes, Source.readKeys?, readsAs_text]
      exact congrArg (Option.map _) ih

/-- **The fields of a mapping are read with their keys.** -/
theorem readsAs_fields (fields : List (String × Value)) :
    ReadsAs src.readFields? (.mapping (ofFields fields)) (nodeFields fields) :=
  readKeys?_ofFields fields

/-- A field that must be there is read where it stands once. -/
theorem required?_eq {key : String} {fields : List (String × Value)}
    (hkey : nodesAt key (nodeFields fields) = [v.node]) (h : ReadsAs read? v a) (jumps : Nat) :
    required? key (nodeFields fields) read? jumps = some (a, jumps) := by
  rw [required?, hkey]
  exact h jumps

/-- So is one with a default. -/
theorem optional?_eq {key : String} {fields : List (String × Value)} {usual : α}
    (hkey : nodesAt key (nodeFields fields) = [v.node]) (h : ReadsAs read? v a) (jumps : Nat) :
    optional? key (nodeFields fields) usual read? jumps = some (a, jumps) := by
  rw [optional?, hkey]
  exact h jumps

/-! ### Changes -/

/-- A path is read from its text. -/
theorem readsAs_path (path : KeyPath) : ReadsAs (readPath? src) (.string path.text) path := by
  intro jumps
  rw [readPath?, readsAs_text]
  simp only [KeyPath.parse_text]

/-- A new text keeps its meaning where it is written, whatever it looks like. -/
theorem readsAs_meaning (s : String) : ReadsAs (readMeaning? src) (.string s) s := by
  intro jumps
  rw [readMeaning?, Value.isRead_string]
  rfl

/-- A written change is read as the change. -/
theorem readsAs_change (c : Change) : ReadsAs (readChange? src) (changeValue c) c := by
  intro jumps
  let fields : List (String × Value) := [("path", .string c.path.text), ("value", .string c.value)]
  have hfields : src.readFields? (changeValue c).node jumps = some (nodeFields fields, jumps) :=
    readsAs_fields fields jumps
  have hpath : required? "path" (nodeFields fields) (readPath? src) jumps = some (c.path, jumps) :=
    required?_eq rfl (readsAs_path c.path) jumps
  have hvalue : required? "value" (nodeFields fields) (readMeaning? src) jumps =
      some (c.value, jumps) :=
    required?_eq rfl (readsAs_meaning c.value) jumps
  simp only [readChange?, hfields, hpath, hvalue, Option.bind_eq_bind, Option.bind_some]

/-- A written entry is read as the entry. -/
theorem readsAs_file (e : FileEntry) : ReadsAs (readFile? src) (entryValue e) e := by
  intro jumps
  let fields : List (String × Value) :=
    [("file", .string e.file), ("changes", .sequence (e.changes.map changeValue))]
  have hfields : src.readFields? (entryValue e).node jumps = some (nodeFields fields, jumps) :=
    readsAs_fields fields jumps
  have hfile : required? "file" (nodeFields fields) src.readText? jumps = some (e.file, jumps) :=
    required?_eq rfl (readsAs_text e.file) jumps
  have hchanges : optional? "changes" (nodeFields fields) [] (src.readList? (readChange? src))
      jumps = some (e.changes, jumps) :=
    optional?_eq rfl (readsAs_list fun c _ => readsAs_change c) jumps
  simp only [readFile?, hfields, hfile, hchanges, Option.bind_eq_bind, Option.bind_some]

/-! ### Whole configurations -/

/-- A truth value is read as one. -/
theorem readsAs_plainValue (b : Bool) : ReadsAs (readPlainValue? src) (.bool b) (.bool b) := by
  intro jumps
  rw [readPlainValue?, Value.isRead_bool]
  rfl

/-- It is read as a switch. -/
theorem readsAs_switch (b : Bool) : ReadsAs (readSwitch? src) (.bool b) b := by
  intro jumps
  rw [readSwitch?, readsAs_plainValue]

/-- **A configuration is read from the document that it is written as.** -/
theorem readsAs_toYaml (config : MasterConfig) :
    ReadsAs (readConfig? src) (.mapping config.toYaml) config := by
  intro jumps
  let flags : List Value := [.bool config.policy.stopOnMissingRequired,
    .bool config.policy.stopOnError, .bool config.policy.requireExistingFiles]
  let fields : List (String × Value) :=
    [("stop-on-missing-required", .bool config.policy.stopOnMissingRequired),
      ("stop-on-error", .bool config.policy.stopOnError),
      ("require-existing-files", .bool config.policy.requireExistingFiles),
      ("env-file", .string config.envFile),
      ("replacements", .sequence (config.replacements.map entryValue))]
  have hfields : src.readFields? (Value.mapping config.toYaml).node jumps =
      some (nodeFields fields, jumps) :=
    readsAs_fields fields jumps
  have henvFile : optional? "env-file" (nodeFields fields) ".env" src.readText? jumps =
      some (config.envFile, jumps) :=
    optional?_eq rfl (readsAs_text _) jumps
  have hreplacements : optional? "replacements" (nodeFields fields) []
      (src.readList? (readFile? src)) jumps = some (config.replacements, jumps) :=
    optional?_eq rfl (readsAs_list fun e _ => readsAs_file e) jumps
  -- The flags are all that is left beside the fields that are known.
  have hothers : ((nodeFields fields).filter fun field => !ownKeys.contains field.1).map (·.2) =
      itemsNodes (flags.map id) := rfl
  have hflags : ∀ flag ∈ flags, ReadsAs (readPlainValue? src) (id flag) flag :=
    List.forall_mem_cons.2 ⟨readsAs_plainValue _, List.forall_mem_cons.2
      ⟨readsAs_plainValue _, List.forall_mem_singleton.2 (readsAs_plainValue _)⟩⟩
  have hswitch {key : String} {b : Bool} (usual : Bool)
      (hkey : nodesAt key (nodeFields fields) = [(Value.bool b).node]) :
      optional? key (nodeFields fields) usual (readSwitch? src) 0 = some (b, 0) :=
    optional?_eq hkey (readsAs_switch b) 0
  have hmissing : nodesAt "stop-on-missing-required" (nodeFields fields) =
      [(Value.bool config.policy.stopOnMissingRequired).node] := rfl
  have herror : nodesAt "stop-on-error" (nodeFields fields) =
      [(Value.bool config.policy.stopOnError).node] := rfl
  have hexisting : nodesAt "require-existing-files" (nodeFields fields) =
      [(Value.bool config.policy.requireExistingFiles).node] := rfl
  simp only [readConfig?, hfields, henvFile, hreplacements, hothers, readItems?_map hflags,
    hswitch true hmissing, hswitch false herror, hswitch true hexisting, Option.bind_eq_bind,
    Option.bind_some]

/-! ### The text of a configuration -/

/-- A change is written in ordinary values. -/
theorem ordinary_changeValue (c : Change) : (changeValue c).Ordinary :=
  .mapping (.cons (by simp) (.cons (by simp) .nil)) <|
    List.forall_mem_cons.2 ⟨.string _, List.forall_mem_singleton.2 (.string _)⟩

/-- So is an entry. -/
theorem ordinary_entryValue (e : FileEntry) : (entryValue e).Ordinary := by
  have hchanges : (Value.sequence (e.changes.map changeValue)).Ordinary :=
    .sequence (List.forall_mem_map.2 fun c _ => ordinary_changeValue c)
  exact .mapping (.cons (by simp) (.cons (by simp) .nil)) <|
    List.forall_mem_cons.2 ⟨.string _, List.forall_mem_singleton.2 hchanges⟩

/-- A configuration is written in ordinary values, which the reader takes without exceptions. -/
theorem ordinary_toYaml (config : MasterConfig) : (Value.mapping config.toYaml).Ordinary := by
  have hreplacements : (Value.sequence (config.replacements.map entryValue)).Ordinary :=
    .sequence (List.forall_mem_map.2 fun e _ => ordinary_entryValue e)
  have hnamed : Named config.toYaml :=
    .cons (by simp) (.cons (by simp) (.cons (by simp) (.cons (by simp) (.cons (by simp) .nil))))
  refine .mapping hnamed fun entry hentry => ?_
  simp only [toYaml, List.mem_cons, List.not_mem_nil, or_false] at hentry
  obtain rfl | rfl | rfl | rfl | rfl := hentry
  · exact .bool _
  · exact .bool _
  · exact .bool _
  · exact .string _
  · exact hreplacements

/-- The text of a configuration begins with its first key. -/
theorem trim_ne_nil_of_render {config : MasterConfig} {written : List Char}
    (h : Yaml.render? config.toYaml = some written) : Text.trim written ≠ [] := by
  rw [Yaml.render?, if_pos (Value.isWritable_of_ordinary config.ordinary_toYaml false)] at h
  have hkey : Value.lineText true 2 (.string "stop-on-missing-required") =
      's' :: "top-on-missing-required".toList := by decide
  have hshort : (Value.string "stop-on-missing-required").isShortKey = true := by decide
  obtain ⟨more, rfl⟩ : ∃ more, written = 's' :: more := by
    rw [← Option.some.inj h, toYaml, if_neg (by simp), Value.entriesBefore_cons, Value.entryText,
      if_pos hshort, hkey]
    exact ⟨_, rfl⟩
  obtain ⟨trimmed, htrim⟩ :=
    Document.exists_trim_eq (List.forall_mem_nil _) (show Text.isBlank 's' = false by decide) more
  rw [List.nil_append] at htrim
  rw [htrim]
  exact List.cons_ne_nil _ _

/-- An ordinary document is read as the configuration that its fields spell. -/
theorem ofRoot?_node {entries : Mapping} (h : (Value.mapping entries).Ordinary) :
    ofRoot? (Value.mapping entries).node =
      (readConfig? ⟨(Value.mapping entries).node, Value.jumpLimit (Value.mapping entries).node⟩
        (Value.mapping entries).node 0).map fun read => read.1 := by
  rw [ofRoot?, Node.link?_node h]
  rfl

/-- **A configuration is read back from its text.** Every configuration can be written: with any
flags, any name of the variable file, and any number of files and changes with any names, paths and
new texts. The same configuration is read from what is written. -/
theorem parse?_render_toYaml (config : MasterConfig) :
    ∃ written, Yaml.render? config.toYaml = some written ∧
      parse? (String.ofList written) = some config := by
  obtain ⟨written, hwritten, hnodes⟩ := Value.ofText?_render config.ordinary_toYaml
  refine ⟨written, hwritten, ?_⟩
  have htext : Text.trim (String.ofList written).toList ≠ [] := by
    rw [String.toList_ofList]
    exact trim_ne_nil_of_render hwritten
  rw [parse?, if_neg htext, hnodes]
  simp only [ofRoot?_node config.ordinary_toYaml]
  rw [readsAs_toYaml]
  rfl

/-- A new text that looks like a number stands in quotes, and so its digits are kept. -/
example :
    (Yaml.render? (toYaml
      { replacements := [⟨"a.yml", [⟨⟨["version"], by simp, by simp, by simp⟩, "1.10"⟩]⟩] })).map
        String.ofList =
      some ("stop-on-missing-required: true\nstop-on-error: false\n" ++
        "require-existing-files: true\nenv-file: .env\n" ++
        "replacements:\n- file: a.yml\n  changes:\n  - path: version\n    value: '1.10'\n") := by
  decide +kernel

end ConfigGraft.MasterConfig
