import ConfigGraft.Binary64
import ConfigGraft.Nested
import ConfigGraft.Toml.Datetime

/-!
# TOML values

Whole numbers have 64 bits with a sign. A table keeps its entries in order, each key at most once.
-/

namespace ConfigGraft.Toml

/-- A TOML value. -/
inductive Value where
  | string (s : String)
  | whole (n : Int)
  | float (x : Binary64)
  | bool (b : Bool)
  | datetime (d : Datetime)
  | array (items : List Value)
  | table (entries : List (String × Value))

/-- The entries of a table. -/
abbrev Table := List (String × Value)

instance : Nested String Value where
  key s := s
  isKey s k := s == k
  ofEntries := .table
  ofText := .string
  entries?
    | .table entries => some entries
    | _ => none
  text?
    | .string s => some s
    | _ => none
  isSealed _ := false

/-- The text of a floating-point number: the fewest digits that read back, all of them in place. -/
def floatText : Binary64 → List Char
  | .nan => "nan".toList
  | .infinity negative => if negative then "-inf".toList else "inf".toList
  | .finite negative m e =>
    let d := Binary64.toDecimal negative m e
    if m = 0 then d.signText ++ "0.0".toList else d.positional

end ConfigGraft.Toml
