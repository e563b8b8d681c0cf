import ConfigGraft.Toml.Statement

/-!
# Reading TOML

Statements take effect one after the other on a table that grows. A key with a value goes to the
table that was opened last.

A table whose first key is `$__toml_private_datetime` stands for the date or time in the string at
that key, unless it is the document itself.
-/

namespace ConfigGraft.Toml

/-- A document that grows, and the path of the table that was opened last. -/
structure Growth where
  entries : Draft.Entries := []
  path : List String := []

/-- Lets a statement take effect. -/
def Growth.step? (g : Growth) : Statement → Option Growth
  | .openTable parents key =>
    (Draft.updateAt? (Draft.openTable? key) parents g.entries).map fun entries =>
      { entries, path := parents ++ [key] }
  | .openElement parents key =>
    (Draft.updateAt? (Draft.openElement? key) parents g.entries).map fun entries =>
      { entries, path := parents ++ [key] }
  | .entry parents key value =>
    (Draft.updateAt? (Draft.addDotted? key value parents) g.path g.entries).map fun entries =>
      { g with entries }

/-- The key that marks a table as a date or time. -/
def datetimeMark : String := "$__toml_private_datetime"

mutual

/-- The value with every marked table in it made a date or time. -/
def Value.settle? : Value → Option Value
  | .array items => (settleItems? items).map .array
  | .table [] => some (.table [])
  | .table ((key, value) :: rest) =>
    if key = datetimeMark then
      match value with
      | .string s => (Datetime.ofText? s.toList).map .datetime
      | _ => none
    else
      match value.settle? with
      | none => none
      | some value => (settleEntries? rest).map fun rest => .table ((key, value) :: rest)
  | value => some value

def settleItems? : List Value → Option (List Value)
  | [] => some []
  | item :: rest =>
    match item.settle? with
    | none => none
    | some item => (settleItems? rest).map (item :: ·)

def settleEntries? : List (String × Value) → Option Table
  | [] => some []
  | (key, value) :: rest =>
    match value.settle? with
    | none => none
    | some value => (settleEntries? rest).map ((key, value) :: ·)

end

/-- Reads a document. -/
def read? (text : String) : Option Table := do
  let statements ← Statement.readAll? text.toList
  let g ← statements.foldlM Growth.step? {}
  settleEntries? (Draft.toEntries g.entries)

end ConfigGraft.Toml
