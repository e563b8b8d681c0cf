import ConfigGraft.Format
import ConfigGraft.KeyPath
import ConfigGraft.Json.Reader
import ConfigGraft.Json.Writer
import ConfigGraft.Properties.Reader
import ConfigGraft.Properties.Writer
import ConfigGraft.Text.Blank
import ConfigGraft.Text.Lines
import ConfigGraft.Toml.Reader
import ConfigGraft.Toml.Writer
import ConfigGraft.Yaml.Writer

/-!
# Documents

A document is a tree of ordered mappings in one of the nested formats, or a table of properties.
It is read from text, written to text, and a text in it can be read and set at a path. In a table
of properties the whole path is one key.
-/

namespace ConfigGraft

/-- A document in one of the four formats. -/
inductive Document where
  | yaml (entries : Yaml.Mapping)
  | json (entries : Json.Object)
  | properties (table : Properties)
  | toml (entries : Toml.Table)

/-- Why a text is no document of a format. -/
inductive DocumentFault where
  | grammar
  | notAMapping (format : Format)
  | escape (fault : Properties.Fault)
  deriving DecidableEq, Repr

/-- The wording of the fault; a text that breaks the grammar of its format has no fixed one. -/
def DocumentFault.message? : DocumentFault → Option String
  | .grammar => none
  | .notAMapping format => some s!"top-level {format.name} value is not a mapping"
  | .escape fault => some fault.message

namespace Document

/-- The format of a document. -/
def format : Document → Format
  | .yaml _ => .yaml
  | .json _ => .json
  | .properties _ => .properties
  | .toml _ => .toml

/-- The document without any entry. -/
def empty : Format → Document
  | .yaml => .yaml []
  | .json => .json []
  | .properties => .properties .empty
  | .toml => .toml []

/-- Whether every line of a text is blank or a comment. -/
def isBlankYaml (cs : List Char) : Bool :=
  (Text.lines cs).all fun line =>
    match Text.trim line with
    | [] => true
    | c :: _ => c == '#'

/-- Reads a YAML document. A text that says there is no value is the empty document. -/
def parseYaml (content : String) : Except DocumentFault Yaml.Mapping :=
  if isBlankYaml content.toList then .ok []
  else match Yaml.Value.read? content with
    | some .null => .ok []
    | some (.mapping entries) => .ok entries
    | some _ => .error (.notAMapping .yaml)
    | none => .error .grammar

/-- Reads a JSON document. -/
def parseJson (content : String) : Except DocumentFault Json.Object :=
  if Text.trim content.toList = [] then .ok []
  else match Json.Value.read? content with
    | some (.object entries) => .ok entries
    | some _ => .error (.notAMapping .json)
    | none => .error .grammar

/-- Reads a properties document. -/
def parseProperties (content : String) : Except DocumentFault Properties :=
  (Properties.parse content.toList).mapError .escape

/-- Reads a TOML document. -/
def parseToml (content : String) : Except DocumentFault Toml.Table :=
  match Toml.read? content with
  | some entries => .ok entries
  | none => .error .grammar

/-- Reads a document. -/
def parse (format : Format) (content : String) : Except DocumentFault Document :=
  match format with
  | .yaml => (parseYaml content).map .yaml
  | .json => (parseJson content).map .json
  | .properties => (parseProperties content).map .properties
  | .toml => (parseToml content).map .toml

/-- The text of a document; some documents cannot be written. -/
def render? : Document → Option String
  | .yaml entries => (Yaml.render? entries).map String.ofList
  | .json entries => some (String.ofList (Json.render entries))
  | .properties table => some (String.ofList table.render)
  | .toml entries => some (String.ofList (Toml.render entries))

/-- The text at a path. -/
def get? (path : KeyPath) : Document → Option String
  | .yaml entries => Nested.get? path.segments entries
  | .json entries => Nested.get? path.segments entries
  | .properties table => table.value? path.text
  | .toml entries => Nested.get? path.segments entries

/-- Sets the text at a path, and says whether it was another one before. -/
def set (path : KeyPath) (value : String) : Document → Except SealedMapping (Document × Bool)
  | .yaml entries =>
    (Nested.set value path.segments entries).map fun (entries, changed) => (.yaml entries, changed)
  | .json entries =>
    (Nested.set value path.segments entries).map fun (entries, changed) => (.json entries, changed)
  | .properties table =>
    .ok (.properties (table.insert path.text value), table.value? path.text != some value)
  | .toml entries =>
    (Nested.set value path.segments entries).map fun (entries, changed) => (.toml entries, changed)

end Document

end ConfigGraft
