import ConfigGraft.Nested
import ConfigGraft.Yaml.Number

/-!
# YAML values

A mapping keeps its entries in order; its keys are values of any kind. A tag that names no type of
the language itself stays with its value. A reader looks through it, but a mapping under a tag is
closed to changes.
-/

namespace ConfigGraft.Yaml

/-- A YAML value. -/
inductive Value where
  | null
  | bool (b : Bool)
  | number (n : Number)
  | string (s : String)
  | sequence (items : List Value)
  | mapping (entries : List (Value × Value))
  | tagged (tag : String) (value : Value)

/-- The entries of a mapping. -/
abbrev Mapping := List (Value × Value)

namespace Value

/-- The value under all tags. -/
def untagged : Value → Value
  | .tagged _ v => v.untagged
  | v => v

mutual

/-- Whether two values are the same. The order of entries does not count. -/
def same : Value → Value → Bool
  | .null, .null => true
  | .bool a, .bool b => a == b
  | .number m, .number n => m.same n
  | .string s, .string t => s == t
  | .sequence xs, .sequence ys => sameItems xs ys
  | .mapping es, .mapping fs => es.length == fs.length && sameEntries es fs
  | .tagged s v, .tagged t w => s == t && same v w
  | _, _ => false

def sameItems : List Value → List Value → Bool
  | [], [] => true
  | x :: xs, y :: ys => same x y && sameItems xs ys
  | _, _ => false

/-- Whether all entries of the first mapping are in the second. -/
def sameEntries : List (Value × Value) → List (Value × Value) → Bool
  | [], _ => true
  | (k, v) :: es, fs => fs.any (fun (k', v') => same k k' && same v v') && sameEntries es fs

end

mutual

/-- Whether a tag stands anywhere in a value. -/
def hasTag : Value → Bool
  | .tagged .. => true
  | .sequence items => anyTag items
  | .mapping entries => anyTagIn entries
  | _ => false

def anyTag : List Value → Bool
  | [] => false
  | item :: rest => item.hasTag || anyTag rest

def anyTagIn : List (Value × Value) → Bool
  | [] => false
  | (key, value) :: rest => key.hasTag || value.hasTag || anyTagIn rest

end

instance : Nested Value Value where
  key s := .string s
  isKey s
    | .string t => s == t
    | _ => false
  ofEntries := .mapping
  ofText := .string
  entries? v := match v.untagged with
    | .mapping entries => some entries
    | _ => none
  text? v := match v.untagged with
    | .string s => some s
    | _ => none
  isSealed
    | .tagged .. => true
    | _ => false

end Value

end ConfigGraft.Yaml
