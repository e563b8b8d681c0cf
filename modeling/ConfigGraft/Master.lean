import ConfigGraft.ChangeSet
import ConfigGraft.FileName
import ConfigGraft.Text.Blank
import ConfigGraft.Variables
import ConfigGraft.Yaml.Writer

/-!
# Master configurations

A master configuration is a YAML text that names a policy, the variable file and the change set.
Every part has a default, and keys that are not known are passed over.

`MasterConfig.parse?` reads one, and `MasterConfig.toYaml` is the document that one is written as.
-/

namespace ConfigGraft

/-- A master configuration. -/
structure MasterConfig where
  policy : Policy := {}
  envFile : String := ".env"
  replacements : List FileEntry := []
  deriving DecidableEq

namespace MasterConfig

open Yaml

/-! ### Parts of a document

A reader takes a node, and how many aliases were followed before it. -/

/-- The way from a node to something that it spells. -/
abbrev Reader (α : Type) := Node Nat → Nat → Option (α × Nat)

/-- A document with its aliases resolved: the root, and how often aliases may be followed. -/
structure Source where
  root : Node Nat
  limit : Nat

namespace Source

/-- The node that an alias stands for, or the node itself. -/
def follow? (src : Source) : Reader (Node Nat) := Value.follow? src.root src.limit

/-- The text of a scalar, whatever it means. -/
def readText? (src : Source) : Reader String := fun node jumps =>
  match src.follow? node jumps with
  | some (.scalar _ _ content, jumps) => some (String.ofList content, jumps)
  | _ => none

/-- The items that a list of nodes spells. -/
def readItems? {α : Type} (item? : Reader α) : List (Node Nat) → Nat → Option (List α × Nat)
  | [], jumps => some ([], jumps)
  | node :: rest, jumps =>
    match item? node jumps with
    | none => none
    | some (item, jumps) =>
      (readItems? item? rest jumps).map fun (items, jumps) => (item :: items, jumps)

/-- The items of a sequence. Where nothing is written, there are none. -/
def readList? {α : Type} (src : Source) (item? : Reader α) : Reader (List α) := fun node jumps =>
  match src.follow? node jumps with
  | some (.sequence _ items, jumps) => readItems? item? items jumps
  | some (.scalar _ true [], jumps) => some ([], jumps)
  | _ => none

/-- The entries of a mapping with the text of their keys. -/
def readKeys? (src : Source) :
    List (Node Nat × Node Nat) → Nat → Option (List (String × Node Nat) × Nat)
  | [], jumps => some ([], jumps)
  | (key, value) :: rest, jumps =>
    match src.readText? key jumps with
    | none => none
    | some (key, jumps) =>
      (src.readKeys? rest jumps).map fun (fields, jumps) => ((key, value) :: fields, jumps)

/-- The fields of a mapping. -/
def readFields? (src : Source) : Reader (List (String × Node Nat)) := fun node jumps =>
  match src.follow? node jumps with
  | some (.mapping _ entries, jumps) => src.readKeys? entries jumps
  | _ => none

end Source

/-- The nodes at a key. -/
def nodesAt (key : String) (fields : List (String × Node Nat)) : List (Node Nat) :=
  (fields.filter (·.1 == key)).map (·.2)

/-- Reads the field at a key, which may be there once at most. -/
def optional? {α : Type} (key : String) (fields : List (String × Node Nat)) (usual : α)
    (read? : Reader α) (jumps : Nat) : Option (α × Nat) :=
  match nodesAt key fields with
  | [] => some (usual, jumps)
  | [node] => read? node jumps
  | _ => none

/-- Reads the field at a key, which has to be there once. -/
def required? {α : Type} (key : String) (fields : List (String × Node Nat)) (read? : Reader α)
    (jumps : Nat) : Option (α × Nat) :=
  match nodesAt key fields with
  | [node] => read? node jumps
  | _ => none

/-! ### Changes -/

/-- The levels of collections around the value of a change. -/
def changeLevels : Nat := 5

/-- The text of a scalar by its meaning: that of a string, a number or a truth value. -/
def meaningText? : Value → Option String
  | .string s => some s
  | .number n => some (String.ofList n.text)
  | .bool b => some (if b then "true" else "false")
  | _ => none

/-- The new text that a change gives. -/
def readMeaning? (src : Source) : Reader String := fun node jumps =>
  match Value.readNode? true src.root src.limit (Value.depthLimit - changeLevels) node jumps with
  | some (value, jumps) => (meaningText? value).map fun text => (text, jumps)
  | none => none

/-- A key path. -/
def readPath? (src : Source) : Reader KeyPath := fun node jumps =>
  match src.readText? node jumps with
  | some (text, jumps) =>
    match KeyPath.parse text with
    | .ok path => some (path, jumps)
    | .error _ => none
  | none => none

/-- A change: its path and its new text. -/
def readChange? (src : Source) : Reader Change := fun node jumps => do
  let (fields, jumps) ← src.readFields? node jumps
  let (path, jumps) ← required? "path" fields (readPath? src) jumps
  let (value, jumps) ← required? "value" fields (readMeaning? src) jumps
  some (⟨path, value⟩, jumps)

/-- A file with its changes. -/
def readFile? (src : Source) : Reader FileEntry := fun node jumps => do
  let (fields, jumps) ← src.readFields? node jumps
  let (file, jumps) ← required? "file" fields src.readText? jumps
  let (changes, jumps) ← optional? "changes" fields [] (src.readList? (readChange? src)) jumps
  some (⟨file, changes⟩, jumps)

/-! ### Whole configurations -/

/-- Any value without a tag; a key may come again in a mapping. -/
def readPlainValue? (src : Source) : Reader Value := fun node jumps =>
  match Value.readNode? false src.root src.limit (Value.depthLimit - 1) node jumps with
  | some (value, jumps) => if value.hasTag then none else some (value, jumps)
  | none => none

/-- A truth value. -/
def readSwitch? (src : Source) : Reader Bool := fun node jumps =>
  match readPlainValue? src node jumps with
  | some (.bool b, jumps) => some (b, jumps)
  | _ => none

/-- The keys that are known beside those of the policy. -/
def ownKeys : List String := ["env-file", "replacements"]

/-- The fields of a configuration in a mapping with texts for keys. -/
def readConfig? (src : Source) : Reader MasterConfig := fun node jumps => do
  let (fields, jumps) ← src.readFields? node jumps
  let (envFile, jumps) ← optional? "env-file" fields ".env" src.readText? jumps
  let (replacements, jumps) ←
    optional? "replacements" fields [] (src.readList? (readFile? src)) jumps
  let others := fields.filter fun (key, _) => !ownKeys.contains key
  let (_, jumps) ← Source.readItems? (readPlainValue? src) (others.map (·.2)) jumps
  let (stopOnMissingRequired, _) ←
    optional? "stop-on-missing-required" fields true (readSwitch? src) 0
  let (stopOnError, _) ← optional? "stop-on-error" fields false (readSwitch? src) 0
  let (requireExistingFiles, _) ←
    optional? "require-existing-files" fields true (readSwitch? src) 0
  some ({ policy := { stopOnMissingRequired, stopOnError, requireExistingFiles }
          envFile, replacements }, jumps)

/-- The configuration that a document spells; where nothing is written, all is as usual. -/
def ofRoot? (root : Node (List Char)) : Option MasterConfig :=
  match root.link? [] with
  | none => none
  | some (.scalar _ true [], _) => some {}
  | some (root, _) =>
    (readConfig? ⟨root, Value.jumpLimit root⟩ root 0).map fun (config, _) => config

/-- Reads a configuration. -/
def parse? (text : String) : Option MasterConfig :=
  if Text.trim text.toList = [] then some {}
  else match Node.ofText? text with
    | none => none
    | some none => some {}
    | some (some root) => ofRoot? root

/-! ### Writing -/

/-- A change as a value. -/
def changeValue (c : Change) : Value :=
  .mapping [(.string "path", .string c.path.text), (.string "value", .string c.value)]

/-- A file with its changes as a value. -/
def entryValue (e : FileEntry) : Value :=
  .mapping [(.string "file", .string e.file),
    (.string "changes", .sequence (e.changes.map changeValue))]

/-- The configuration as a document. -/
def toYaml (config : MasterConfig) : Mapping :=
  [(.string "stop-on-missing-required", .bool config.policy.stopOnMissingRequired),
    (.string "stop-on-error", .bool config.policy.stopOnError),
    (.string "require-existing-files", .bool config.policy.requireExistingFiles),
    (.string "env-file", .string config.envFile),
    (.string "replacements", .sequence (config.replacements.map entryValue))]

/-- The path of the variable file as seen from a base directory. -/
def envFilePath (config : MasterConfig) (base : String) : String :=
  FileName.join base config.envFile

end MasterConfig

end ConfigGraft
