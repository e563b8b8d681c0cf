import ConfigGraft.Text.LowerCase

/-!
# Document formats

The four formats of documents, and the format that a file has by the end of its name. Capital and
small letters count as the same there.
-/

namespace ConfigGraft

/-- A format of documents. -/
inductive Format where
  | yaml
  | json
  | properties
  | toml
  deriving DecidableEq, Repr

namespace Format

/-- All formats, in the order in which they are asked whether a file is theirs. -/
def all : List Format := [.yaml, .json, .properties, .toml]

/-- The name that people know the format by. -/
def name : Format → String
  | .yaml => "YAML"
  | .json => "JSON"
  | .properties => "Properties"
  | .toml => "TOML"

/-- How the names of files in the format end. -/
def suffixes : Format → List String
  | .yaml => [".yml", ".yaml"]
  | .json => [".json"]
  | .properties => [".properties"]
  | .toml => [".toml"]

/-- Whether a file belongs to the format by its name. -/
def claims (format : Format) (file : String) : Bool :=
  format.suffixes.any fun suffix => suffix.toList.isSuffixOf (Text.lower file.toList)

/-- The format of a file. -/
def ofFile? (file : String) : Option Format := all.find? (·.claims file)

/-- The format of a file claims the file. -/
theorem claims_of_ofFile? {file : String} {format : Format} (h : ofFile? file = some format) :
    format.claims file = true :=
  List.find?_some (p := fun f : Format => f.claims file) h

end Format

end ConfigGraft
