import ConfigGraft.Toml.Quoted
import ConfigGraft.Toml.Value

/-!
# Writing TOML

The keys of a table are written before the tables in it. A table within another one has a header
with the whole path, unless all that it holds is tables; a row of tables has a header in double
brackets for each of them. Other arrays are written with their items on lines of their own as soon
as there are two, and tables in them in braces.

Below the document itself, values that are no tables come first, then arrays with tables among
their items, then tables.
-/

namespace ConfigGraft.Toml

namespace Value

def isTable : Value → Bool
  | .table _ => true
  | _ => false

/-- Whether a value is an array with a table among its items. -/
def hasTable : Value → Bool
  | .array items => items.any isTable
  | _ => false

/-- Whether a value is a row of tables, which headers can open. -/
def isRow : Value → Bool
  | .array items => !items.isEmpty && items.all isTable
  | _ => false

/-- Whether a value stands behind its key, and not under a header. -/
def isInline (v : Value) : Bool := !v.isTable && !v.isRow

end Value

/-- The entries of a table below the document in the order in which they are written. -/
def ordered (entries : Table) : Table :=
  entries.filter (fun e => !e.2.isTable && !e.2.hasTable) ++
    entries.filter (fun e => e.2.hasTable) ++
    entries.filter (fun e => e.2.isTable)

mutual

/-- The value with the tables in it in the order in which they are written. -/
def Value.arrange : Value → Value
  | .array items => .array (arrangeItems items)
  | .table entries => .table (ordered (arrangeEntries entries))
  | value => value

def arrangeItems : List Value → List Value
  | [] => []
  | item :: rest => item.arrange :: arrangeItems rest

def arrangeEntries : List (String × Value) → Table
  | [] => []
  | (key, value) :: rest => (key, value.arrange) :: arrangeEntries rest

end

/-! ### Values behind keys -/

def keyText (key : String) : List Char := Key.write key.toList

mutual

/-- A value as it stands behind a key. -/
def Value.text : Value → List Char
  | .string s => Quoted.write s.toList
  | .whole n => (toString n).toList
  | .float x => floatText x
  | .bool b => if b then "true".toList else "false".toList
  | .datetime d => d.text
  | .array [] => ['[', ']']
  | .array [item] => '[' :: (item.text ++ [']'])
  | .array items => '[' :: (itemsText items ++ ['\n', ']'])
  | .table [] => ['\x7b', '\x7d']
  | .table (entry :: rest) => '\x7b' :: (entriesText (entry :: rest) ++ [' ', '\x7d'])

/-- Items on lines of their own, each with a comma behind it. -/
def itemsText : List Value → List Char
  | [] => []
  | item :: rest => "\n    ".toList ++ item.text ++ ',' :: itemsText rest

/-- Entries in braces, with commas between them. -/
def entriesText : List (String × Value) → List Char
  | [] => []
  | [(key, value)] => ' ' :: (keyText key ++ " = ".toList ++ value.text)
  | (key, value) :: next :: rest =>
    ' ' :: (keyText key ++ " = ".toList ++ value.text ++ ',' :: entriesText (next :: rest))

end

/-! ### Tables under headers -/

/-- A header and the entries that are written below it, up to the next one. -/
structure Section where
  path : List String
  isElement : Bool
  entries : Table

namespace Section

/-- Whether the header is written: that of a table with nothing but tables in it is not. -/
def hasHeader (s : Section) (isEmpty : Bool) : Bool :=
  s.path != [] && (s.isElement || isEmpty || !s.entries.isEmpty)

end Section

/-- The entries of a table that stand behind their keys. -/
def inlineEntries (entries : Table) : Table := entries.filter (·.2.isInline)

/-- The part of a document for a table itself, if any is written. -/
def ownSection (path : List String) (isElement : Bool) (entries : Table) : List Section :=
  let s : Section := ⟨path, isElement, inlineEntries entries⟩
  if path = [] || s.hasHeader entries.isEmpty then [s] else []

mutual

/-- The parts of a document for the values of a table that have headers. -/
def sectionsOf (path : List String) : List (String × Value) → List Section
  | [] => []
  | (key, value) :: rest => valueSections (path ++ [key]) value ++ sectionsOf path rest

/-- The parts of a document for a value at a path. -/
def valueSections (path : List String) : Value → List Section
  | .table entries => ownSection path false entries ++ sectionsOf path entries
  | .array items => if (Value.array items).isRow then rowSections path items else []
  | _ => []

/-- The parts of a document for a row of tables. -/
def rowSections (path : List String) : List Value → List Section
  | [] => []
  | .table entries :: rest =>
    ownSection path true entries ++ sectionsOf path entries ++ rowSections path rest
  | _ :: rest => rowSections path rest

end

/-- The header of a part. -/
def headerText (s : Section) : List Char :=
  let path := ".".toList.intercalate (s.path.map keyText)
  if s.isElement then "[[".toList ++ path ++ "]]\n".toList
  else '[' :: (path ++ "]\n".toList)

/-- The keys and values below a header, each on lines of its own. -/
def bodyText (entries : Table) : List Char :=
  entries.flatMap fun (key, value) => keyText key ++ " = ".toList ++ value.text ++ ['\n']

/-- The parts behind one another, an empty line before each header but the first in the text. -/
def sectionsText : Bool → List Section → List Char
  | _, [] => []
  | first, s :: rest =>
    if s.path = [] then bodyText s.entries ++ sectionsText s.entries.isEmpty rest
    else
      (if first then [] else ['\n']) ++ headerText s ++ bodyText s.entries ++
        sectionsText false rest

/-- The text of a document. -/
def render (entries : Table) : List Char :=
  let entries := arrangeEntries entries
  sectionsText true (ownSection [] false entries ++ sectionsOf [] entries)

end ConfigGraft.Toml
