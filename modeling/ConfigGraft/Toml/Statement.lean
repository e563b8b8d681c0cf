import ConfigGraft.Toml.Draft
import ConfigGraft.Toml.Number
import ConfigGraft.Toml.Quoted

/-!
# TOML statements

A TOML document is a row of statements: headers that open a table, headers in double brackets that
open one more of a row of tables, and keys with values. Each stands on a line of its own, or with
an array or a long string on several. Arrays and tables in braces are nested less than eighty deep,
and as many keys may stand with dots between them.
-/

namespace ConfigGraft.Toml

/-- A statement of a document. -/
inductive Statement where
  | openTable (parents : List String) (key : String)
  | openElement (parents : List String) (key : String)
  | entry (parents : List String) (key : String) (value : Value)

/-- Something that was read, and the text behind it. -/
abbrev Read (α : Type) := Option (α × List Char)

namespace Statement

/-! ### Blanks and line ends -/

def skipBlanks (cs : List Char) : List Char := cs.dropWhile Quoted.isBlank

/-- Leaves out a comment. It ends before a line break, or before a character that may not stand in
a document. -/
def skipComment : List Char → List Char
  | '#' :: rest => rest.dropWhile (!isControl ·)
  | cs => cs

/-- Passes over the end of a line. -/
def passBreak? (cs : List Char) : Option (List Char) :=
  if cs.isEmpty then some [] else if Quoted.atBreak cs then some (Quoted.dropBreak cs) else none

/-- Passes over the rest of a line that has no more than blanks and a comment. -/
def passLine? (cs : List Char) : Option (List Char) := passBreak? (skipComment (skipBlanks cs))

/-- Passes over blanks, comments and line breaks; the number bounds the lines. -/
def skipLines? : Nat → List Char → Option (List Char)
  | 0, _ => none
  | bound + 1, cs =>
    match skipBlanks cs with
    | '#' :: rest =>
      let rest := skipComment ('#' :: rest)
      if Quoted.atBreak rest then skipLines? bound (Quoted.dropBreak rest) else none
    | rest =>
      if Quoted.atBreak rest then skipLines? bound (Quoted.dropBreak rest)
      else if rest.head? = some '\x0d' then none
      else some rest

/-! ### Keys -/

/-- How many keys may stand with dots between them, and how deep values may be nested; both stay
below the limit. -/
def limit : Nat := 80

/-- Reads keys with dots between them. The number bounds the steps. -/
def readKeys? : Nat → List Char → Read (List String)
  | 0, _ => none
  | bound + 1, cs =>
    match Key.read? (skipBlanks cs) with
    | none => none
    | some (key, rest) =>
      match skipBlanks rest with
      | '.' :: rest =>
        (readKeys? bound rest).map fun (keys, rest) => (String.ofList key :: keys, rest)
      | rest => some ([String.ofList key], rest)

/-- Reads a path: keys with dots between them, of which the last is taken apart. -/
def readPath? (cs : List Char) : Read (List String × String) :=
  match readKeys? (cs.length + 1) cs with
  | some (keys, rest) =>
    if keys.length < limit then
      keys.getLast?.map fun key => ((keys.dropLast, key), rest)
    else none
  | none => none

/-! ### Values -/

/-- The table of entries in braces, if they go together. -/
def ofEntries? (entries : List ((List String × String) × Value)) : Option Value :=
  (entries.foldlM (fun table ((parents, key), v) => Draft.addDotted? key v parents table)
    ([] : Draft.Entries)).map fun table => .table (Draft.toEntries table)

mutual

/-- Reads a value. The first number bounds the steps, the second the levels that are left. -/
def readValue? : Nat → Nat → List Char → Read Value
  | 0, _, _ => none
  | bound + 1, depth, cs =>
    match cs with
    | [] => none
    | c :: rest =>
      if c = '"' ∨ c = '\x27' then
        (Quoted.read? cs).map fun (content, rest) => (.string (String.ofList content), rest)
      else if c = '[' then
        if depth = 0 then none
        else (readItems? bound (depth - 1) rest).map fun (items, rest) => (.array items, rest)
      else if c = '\x7b' then
        if depth = 0 then none
        else match readEntries? bound (depth - 1) true rest with
          | some (entries, rest) => (ofEntries? entries).map fun table => (table, rest)
          | none => none
      else if c = 't' then
        if "rue".toList.isPrefixOf rest then some (.bool true, rest.drop 3) else none
      else if c = 'f' then
        if "alse".toList.isPrefixOf rest then some (.bool false, rest.drop 4) else none
      else if c = 'i' ∨ c = 'n' then Number.readWord? cs
      else Number.read? cs

/-- Reads the items of an array to its end; a comma may stand behind the last one. -/
def readItems? : Nat → Nat → List Char → Read (List Value)
  | 0, _, _ => none
  | bound + 1, depth, cs =>
    match skipLines? (cs.length + 1) cs with
    | none => none
    | some (']' :: rest) => some ([], rest)
    | some cs =>
      match readValue? bound depth cs with
      | none => none
      | some (item, rest) =>
        match skipLines? (rest.length + 1) rest with
        | some (',' :: rest) =>
          (readItems? bound depth rest).map fun (items, rest) => (item :: items, rest)
        | some (']' :: rest) => some ([item], rest)
        | _ => none

/-- Reads the entries of a table in braces to its end. Only before the `first` one the table may
end. -/
def readEntries? : Nat → Nat → Bool → List Char → Read (List ((List String × String) × Value))
  | 0, _, _, _ => none
  | bound + 1, depth, first, cs =>
    match skipBlanks cs with
    | [] => none
    | c :: rest =>
      if first && c == '\x7d' then some ([], rest)
      else match readPath? (c :: rest) with
        | some (path, '=' :: rest) =>
          match readValue? bound depth (skipBlanks rest) with
          | none => none
          | some (value, rest) =>
            match skipBlanks rest with
            | [] => none
            | c :: rest =>
              if c = ',' then
                (readEntries? bound depth false rest).map fun (entries, rest) =>
                  ((path, value) :: entries, rest)
              else if c = '\x7d' then some ([(path, value)], rest)
              else none
        | _ => none

end

/-! ### Statements -/

/-- Reads the path of a header and what closes it. -/
def readHeader? (close : List Char) (cs : List Char) : Read (List String × String) :=
  match readPath? cs with
  | some (path, rest) =>
    if close.isPrefixOf rest then some (path, rest.drop close.length) else none
  | none => none

/-- The statement together with the text behind the line that it ends on. -/
def endingLine? (statement : Statement) (rest : List Char) : Read Statement :=
  (passLine? rest).map fun rest => (statement, rest)

/-- Reads a statement, to the end of its last line. -/
def read? : List Char → Read Statement
  | '[' :: '[' :: rest =>
    match readHeader? [']', ']'] rest with
    | some ((parents, key), rest) => endingLine? (.openElement parents key) rest
    | none => none
  | '[' :: rest =>
    match readHeader? [']'] rest with
    | some ((parents, key), rest) => endingLine? (.openTable parents key) rest
    | none => none
  | cs =>
    match readPath? cs with
    | some ((parents, key), '=' :: rest) =>
      match readValue? (2 * cs.length + 2) (limit - 1) (skipBlanks rest) with
      | some (value, rest) => endingLine? (.entry parents key value) rest
      | none => none
    | _ => none

/-- Reads statements to the end of a text; the number bounds how many lines are read. -/
def readUpTo? : Nat → List Char → Option (List Statement)
  | 0, _ => none
  | bound + 1, cs =>
    match skipBlanks cs with
    | [] => some []
    | c :: rest =>
      if c = '#' ∨ c = '\n' ∨ c = '\x0d' then (passLine? (c :: rest)).bind (readUpTo? bound)
      else
        match read? (c :: rest) with
        | none => none
        | some (statement, rest) => (readUpTo? bound rest).map (statement :: ·)

/-- The statements of a text, which may begin with a byte order mark. -/
def readAll? (cs : List Char) : Option (List Statement) :=
  let cs := match cs with
    | '\ufeff' :: rest => rest
    | cs => cs
  readUpTo? (cs.length + 1) cs

end Statement

end ConfigGraft.Toml
