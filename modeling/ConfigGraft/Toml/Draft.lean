import ConfigGraft.Association
import ConfigGraft.Toml.Value

/-!
# Tables that grow

A table of a document comes into being piece by piece: by a header, by headers of tables below it,
or by keys with dots. How it came into being decides what may still be added to it.

* A table that a header or braces opened takes no further keys from elsewhere.
* A table that was only passed on the way to another one may get its own header later; it then
  moves to the end of the table around it.
* A table that dots made grows by further keys with dots of the same table only.
-/

namespace ConfigGraft.Toml

/-- How a table came into being. -/
inductive Origin where
  | opened
  | passed
  | dotted
  deriving DecidableEq, Repr

/-- What stands at a key of a table that grows: a finished value, a table, or tables that headers
in double brackets opened one after the other. -/
inductive Draft where
  | value (v : Value)
  | table (origin : Origin) (entries : List (String × Draft))
  | tables (elements : List (List (String × Draft)))

namespace Draft

/-- The entries of a table that grows. -/
abbrev Entries := List (String × Draft)

/-- Puts something at a key, at the end if the key is new. -/
def put (key : String) (draft : Draft) (entries : Entries) : Entries :=
  Association.put key draft entries

/-- Adds a value at a key, which has to be new. -/
def add? (key : String) (v : Value) (entries : Entries) : Option Entries :=
  if (entries.lookup key).isSome then none else some (entries ++ [(key, .value v)])

/-- Lets a change happen to the last of a row of tables. -/
def updateLast? (change : Entries → Option Entries) : List Entries → Option (List Entries)
  | [] => none
  | [last] => (change last).map fun last => [last]
  | element :: next :: more => (updateLast? change (next :: more)).map (element :: ·)

/-- Adds a value below a table at keys with dots between them. -/
def addDotted? (key : String) (v : Value) : List String → Entries → Option Entries
  | [], entries => add? key v entries
  | segment :: rest, entries =>
    match entries.lookup segment with
    | none => (addDotted? key v rest []).map fun inner => put segment (.table .dotted inner) entries
    | some (.value _) => none
    | some (.table origin inner) =>
      if origin = .opened ∨ (rest = [] ∧ origin ≠ .dotted) then none
      else
        (addDotted? key v rest inner).map fun inner => put segment (.table origin inner) entries
    | some (.tables elements) =>
      if rest = [] then none
      else
        (updateLast? (addDotted? key v rest) elements).map fun elements =>
          put segment (.tables elements) entries

/-- Lets a change happen to the table at a path. Tables on the way are made where they are
missing, and of several tables at a key the last one counts. -/
def updateAt? (change : Entries → Option Entries) : List String → Entries → Option Entries
  | [], entries => change entries
  | segment :: rest, entries =>
    match entries.lookup segment with
    | none =>
      (updateAt? change rest []).map fun inner => put segment (.table .passed inner) entries
    | some (.value _) => none
    | some (.table origin inner) =>
      (updateAt? change rest inner).map fun inner => put segment (.table origin inner) entries
    | some (.tables elements) =>
      (updateLast? (updateAt? change rest) elements).map fun elements =>
        put segment (.tables elements) entries

/-- Opens the table at a key: a new one, or one that was only passed so far. -/
def openTable? (key : String) (entries : Entries) : Option Entries :=
  match entries.lookup key with
  | none => some (entries ++ [(key, .table .opened [])])
  | some (.table .passed inner) =>
    some (entries.filter (·.1 != key) ++ [(key, .table .opened inner)])
  | some _ => none

/-- Opens one more table in the row of tables at a key. -/
def openElement? (key : String) (entries : Entries) : Option Entries :=
  match entries.lookup key with
  | none => some (entries ++ [(key, .tables [[]])])
  | some (.tables elements) => some (put key (.tables (elements ++ [[]])) entries)
  | some _ => none

mutual

/-- The value that has grown. -/
def toValue : Draft → Value
  | .value v => v
  | .table _ entries => .table (toEntries entries)
  | .tables elements => .array (toElements elements)

def toEntries : List (String × Draft) → Table
  | [] => []
  | (key, d) :: rest => (key, toValue d) :: toEntries rest

def toElements : List (List (String × Draft)) → List Value
  | [] => []
  | entries :: rest => .table (toEntries entries) :: toElements rest

end

end Draft

end ConfigGraft.Toml
