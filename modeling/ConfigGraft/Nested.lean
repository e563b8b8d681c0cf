import ConfigGraft.KeyPath

/-!
# Nested entries

Documents of several formats are trees of ordered mappings. `Nested` says how such a tree is
spelled in a format, and on top of it a text can be read and set at a path, by recursion on the
segments.

Setting walks from mapping to mapping. A missing mapping is made at the end of its parent, a value
that is no mapping gives way to an empty one, and the text is put at the last segment. A key that
is there keeps its place. A mapping can be visible to a reader and yet not be open to changes, as
one under a tag is; setting a text below it is not possible.

The mapping at a segment and what is set in it are put there in one step. A writer that works in
place first makes room for the mapping, with a null in YAML and JSON and with an empty table in
TOML. This comes to the same: the null gives way to an empty mapping at once, and nobody looks at
either before the rest of the path is set. Where setting fails, it does so at a mapping that was
there, and the document is given up.
-/

namespace ConfigGraft

/-- How a format spells trees of ordered mappings with texts at their leaves: keys are of type
`κ`, values of type `ν`. -/
class Nested (κ : outParam Type) (ν : Type) where
  /-- The key that a segment names. -/
  key : String → κ
  /-- Whether a key is the one that a segment names. -/
  isKey : String → κ → Bool
  /-- The value that holds a mapping. -/
  ofEntries : List (κ × ν) → ν
  /-- The value that holds a text. -/
  ofText : String → ν
  /-- The mapping that a value shows. -/
  entries? : ν → Option (List (κ × ν))
  /-- The text that a value shows. -/
  text? : ν → Option String
  /-- Whether the mapping that a value shows is closed to changes. -/
  isSealed : ν → Bool

/-- The attempt to change something in a mapping that is closed to changes. -/
inductive SealedMapping where
  | mk
  deriving DecidableEq, Repr

/-- The wording of the failure. -/
def SealedMapping.message (_ : SealedMapping) : String :=
  "internal error: entered unreachable code: slot was just set to a mapping"

namespace Nested

variable {κ ν : Type} [Nested κ ν]

/-- The value at the key that a segment names. -/
def find? (segment : String) : List (κ × ν) → Option ν
  | [] => none
  | (k, v) :: rest => if isKey ν segment k then some v else find? segment rest

/-- Puts a value at the key that a segment names, at the end if the key is new. -/
def put (segment : String) (value : ν) : List (κ × ν) → List (κ × ν)
  | [] => [(key ν segment, value)]
  | (k, v) :: rest =>
    if isKey ν segment k then (k, value) :: rest else (k, v) :: put segment value rest

/-- The text at a path. -/
def get? : List String → List (κ × ν) → Option String
  | [], _ => none
  | [leaf], es => (find? leaf es).bind text?
  | segment :: next :: more, es =>
    ((find? segment es).bind entries?).bind (get? (next :: more))

/-- Sets the text at a path, and says whether it was another one before. -/
def set (value : String) : List String → List (κ × ν) →
    Except SealedMapping (List (κ × ν) × Bool)
  | [], es => .ok (es, false)
  | [leaf], es =>
    .ok (put leaf (ofText value) es, (find? leaf es).bind text? != some value)
  | segment :: next :: more, es =>
    match find? segment es with
    | none => descend segment es (set value (next :: more) [])
    | some child =>
      match entries? child with
      | none => descend segment es (set value (next :: more) [])
      | some inner =>
        if isSealed child then .error .mk
        else descend segment es (set value (next :: more) inner)
where
  /-- Puts the changed mapping of a segment into its parent. -/
  descend (segment : String) (es : List (κ × ν)) :
      Except SealedMapping (List (κ × ν) × Bool) → Except SealedMapping (List (κ × ν) × Bool)
    | .error e => .error e
    | .ok (inner, changed) => .ok (put segment (ofEntries inner) es, changed)

end Nested

end ConfigGraft
