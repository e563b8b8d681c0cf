import ConfigGraft.ChangeSet.Apply
import ConfigGraft.Proofs.Disk.Shape
import ConfigGraft.Proofs.Document.Updates
import ConfigGraft.Proofs.Json.RoundTrip
import ConfigGraft.Proofs.Properties.RoundTrip

/-!
# Documents in the bytes of files

What a file is loaded as depends on its bytes and the format, and on nothing else. A document whose
text reads back is loaded again from the bytes that it is stored as.

## Main results

* `Document.load_eq_ok` — a file is loaded as the document that is held where its name leads;
* `Document.ofBytes?_toUTF8` — **what is stored can be loaded again.**
-/

namespace ConfigGraft

namespace Document

/-- The document that the bytes of a file hold in a format. -/
def ofBytes? (format : Format) (content : ByteArray) : Option Document :=
  match format with
  | .properties => (parse .properties (Properties.decode content)).toOption
  | format => (String.fromUTF8? content).bind fun text => (parse format text).toOption

/-- A document **reads back** if its text, where it has one, is read as the document. -/
def ReadsBack (document : Document) : Prop :=
  ∀ text, document.render? = some text → parse document.format text = .ok document

end Document

/-- A disk **holds** a document at a place in a format if there is a file whose bytes are read as
the document. -/
def Disk.Holds (disk : Disk) (format : Format) (place : Location) (document : Document) : Prop :=
  ∃ content, disk.node? place = some (.file content) ∧
    Document.ofBytes? format content = some document

/-- What a place holds depends on what stands there. -/
theorem Disk.Holds.of_node?_eq {d e : Disk} {format : Format} {place : Location}
    {document : Document} (h : d.Holds format place document)
    (hnode : e.node? place = d.node? place) : e.Holds format place document := by
  obtain ⟨content, hfile, hread⟩ := h
  exact ⟨content, hnode.trans hfile, hread⟩

namespace Document

variable {disk : Disk} {path : String} {format : Format} {document : Document}

/-- What is read in a format is a document of the format. -/
theorem format_parse {text : String} (h : parse format text = .ok document) :
    document.format = format := by
  cases format <;>
    (obtain ⟨content, -, rfl⟩ := map_eq_ok.1 h
     rfl)

/-- What bytes hold is what some text is read as. -/
theorem parse_of_ofBytes? {content : ByteArray} (h : ofBytes? format content = some document) :
    ∃ text, parse format text = .ok document := by
  have hok {x : Except DocumentFault Document} (hx : x.toOption = some document) :
      x = .ok document := by
    cases x with
    | error fault => cases hx
    | ok other => exact congrArg Except.ok (Option.some.inj hx)
  cases format with
  | properties => exact ⟨_, hok h⟩
  | yaml | json | toml =>
      obtain ⟨text, -, hparse⟩ := Option.bind_eq_some_iff.1 h
      exact ⟨text, hok hparse⟩

/-- What bytes hold in a format is a document of the format. -/
theorem format_ofBytes? {content : ByteArray} (h : ofBytes? format content = some document) :
    document.format = format := by
  obtain ⟨text, hparse⟩ := parse_of_ofBytes? h
  exact format_parse hparse

/-! ### Loading -/

/-- What is there and can be loaded is a file. -/
theorem exists_file_of_load (hthere : disk.has path = true)
    (hload : load format disk path = .ok document) :
    ∃ place content, disk.find path = .ok (place, .file content) := by
  obtain ⟨place, hplace, hsome⟩ := Disk.has_iff.1 hthere
  rcases hnode : disk.node? place with - | - | content
  · rw [hnode] at hsome; cases hsome
  · have hfind := Disk.find_eq_ok.2 ⟨hplace, hnode⟩
    unfold load contentOf Disk.readText Disk.readBytes at hload
    rw [if_pos hthere, hfind] at hload
    cases format <;> cases hload
  · exact ⟨place, content, Disk.find_eq_ok.2 ⟨hplace, hnode⟩⟩

/-- A file is loaded as what its bytes hold. -/
theorem load_of_find {place : Location} {content : ByteArray}
    (hfind : disk.find path = .ok (place, .file content)) :
    load format disk path = .ok document ↔ ofBytes? format content = some document := by
  have hthere : disk.has path = true := by rw [Disk.has, hfind]
  unfold load contentOf Disk.readText Disk.readBytes ofBytes?
  rw [if_pos hthere, hfind]
  cases format with
  | properties =>
      simp only [Except.map]
      cases parse .properties (Properties.decode content) <;> simp [Except.toOption]
  | yaml | json | toml =>
      dsimp only
      cases String.fromUTF8? content with
      | none => simp
      | some text =>
          simp only [Option.bind_some]
          generalize parse _ text = x
          cases x <;> simp [Except.toOption]

/-- A file is loaded as the document that is held where its name leads. -/
theorem load_eq_ok {place : Location} (hthere : disk.has path = true)
    (hplace : disk.locate path = .ok place) :
    load format disk path = .ok document ↔ disk.Holds format place document := by
  constructor
  · intro hload
    obtain ⟨place', content, hfind⟩ := exists_file_of_load hthere hload
    obtain ⟨hplace', hnode⟩ := Disk.find_eq_ok.1 hfind
    obtain rfl : place' = place := Except.ok.inj (hplace'.symm.trans hplace)
    exact ⟨content, hnode, (load_of_find hfind).1 hload⟩
  · rintro ⟨content, hnode, hread⟩
    exact (load_of_find (Disk.find_eq_ok.2 ⟨hplace, hnode⟩)).2 hread

/-- Whether and as what a file is loaded depends on what its name leads to. -/
theorem load_congr {d e : Disk} (h : ∀ place node,
    e.find path = .ok (place, node) ↔ d.find path = .ok (place, node)) (format : Format) :
    load format e path = load format d path := by
  rcases hd : d.find path with fault | ⟨place, node⟩
  · rcases he : e.find path with fault' | ⟨place, node⟩
    · simp [load, Disk.has, hd, he]
    · rw [(h place node).1 he] at hd
      cases hd
  · simp only [load, Disk.has, contentOf, Disk.readText, Disk.readBytes, hd, (h place node).2 hd]

/-- What is loaded in a format is a document of the format. -/
theorem format_load (hload : load format disk path = .ok document) : document.format = format := by
  rw [load] at hload
  split at hload
  · split at hload
    · cases hload
    · split at hload
      · rename_i hparse
        cases hload
        exact format_parse hparse
      · cases hload
  · cases hload
    cases format <;> rfl

/-! ### Storing -/

/-- Tables of properties read back, whatever they hold. -/
theorem readsBack_properties (table : Properties) : (Document.properties table).ReadsBack := by
  intro text htext
  cases htext
  simp only [parse, format, parseProperties, String.toList_ofList, Properties.parse_render]
  rfl

/-- JSON documents read back if they are regular, as all that were read are, and within the bounds
of the reader. -/
theorem readsBack_json {entries : Json.Object} (hregular : (Json.Value.object entries).Regular)
    (hunmarked : (Json.Value.object entries).Unmarked)
    (hdepth : (Json.Value.object entries).depth ≤ 127) : (Document.json entries).ReadsBack := by
  intro text htext
  cases htext
  rw [format, parse, Json.parseJson_render hregular hunmarked hdepth]
  rfl

/-- So every document of that format reads back. -/
theorem readsBack_of_format (h : document.format = .properties) : document.ReadsBack := by
  cases document with
  | properties table => exact readsBack_properties table
  | yaml | json | toml => cases h

/-- The bytes of a text are the text again. -/
theorem fromUTF8?_toUTF8 (text : String) : String.fromUTF8? text.toUTF8 = some text := by
  have hvalid : text.toUTF8.IsValidUTF8 := text.isValidUTF8
  rw [String.fromUTF8?, dif_pos hvalid]
  rfl

/-- The bytes that a text is stored as are read as the text. -/
theorem ofBytes?_render {text : String} (h : document.render? = some text) :
    ofBytes? document.format text.toUTF8 = (parse document.format text).toOption := by
  cases document with
  | properties table =>
      cases h
      simp only [ofBytes?, format, Properties.decode_toUTF8 table.render_ascii]
  | yaml | json | toml => simp only [ofBytes?, format, fromUTF8?_toUTF8, Option.bind_some]

/-- **What is stored can be loaded again.** -/
theorem ofBytes?_toUTF8 {text : String} (hback : document.ReadsBack)
    (h : document.render? = some text) :
    ofBytes? document.format text.toUTF8 = some document := by
  rw [ofBytes?_render h, hback text h]
  rfl

end Document

end ConfigGraft
