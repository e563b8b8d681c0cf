import ConfigGraft.Nested

/-!
# JSON values

A number is kept as its text, so that no digit is lost. An object keeps its entries in order, each
name at most once.
-/

namespace ConfigGraft.Json

/-- A JSON value. -/
inductive Value where
  | null
  | bool (b : Bool)
  | number (text : String)
  | string (s : String)
  | array (items : List Value)
  | object (entries : List (String × Value))

/-- The entries of an object. -/
abbrev Object := List (String × Value)

instance : Nested String Value where
  key s := s
  isKey s k := s == k
  ofEntries := .object
  ofText := .string
  entries?
    | .object entries => some entries
    | _ => none
  text?
    | .string s => some s
    | _ => none
  isSealed _ := false

end ConfigGraft.Json
