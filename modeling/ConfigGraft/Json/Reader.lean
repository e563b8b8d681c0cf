import ConfigGraft.Association
import ConfigGraft.Json.Token
import ConfigGraft.Json.Value

/-!
# Reading JSON

Values are read from a row of tokens. Arrays and objects are nested at most 127 deep. A name that
comes again in an object gives its first place the last value.

An object whose first name is `$serde_json::private::Number` stands for a number: it has one entry,
and the text of the number is its value.
-/

namespace ConfigGraft.Json

namespace Value

/-- The name that marks an object as a number. -/
def numberMark : List Char := "$serde_json::private::Number".toList

/-- How deep a reader goes: an array or object needs more than one level left. -/
def depthLimit : Nat := 128

/-- The number that a text is, if it is one as a whole. -/
def numberOfText? (cs : List Char) : Option Value :=
  match Token.readNumber? cs with
  | some (text, []) => some (.number (String.ofList text))
  | _ => none

mutual

/-- Reads a value. The first number bounds the steps, the second the levels that are left. -/
def readUpTo? : Nat → Nat → List Token → Option (Value × List Token)
  | 0, _, _ => none
  | bound + 1, depth, tokens =>
    match tokens with
    | .null :: rest => some (.null, rest)
    | .bool b :: rest => some (.bool b, rest)
    | .number text :: rest => some (.number (String.ofList text), rest)
    | .string content :: rest => some (.string (String.ofList content), rest)
    | .openArray :: .closeArray :: rest => if depth ≤ 1 then none else some (.array [], rest)
    | .openArray :: rest =>
      if depth ≤ 1 then none
      else (readItems? bound (depth - 1) rest).map fun (items, rest) => (.array items, rest)
    | .openObject :: .closeObject :: rest => if depth ≤ 1 then none else some (.object [], rest)
    | .openObject :: .string name :: .colon :: rest =>
      if depth ≤ 1 then none
      else if name = numberMark then
        match rest with
        | .string text :: .closeObject :: rest => (numberOfText? text).map fun v => (v, rest)
        | _ => none
      else
        (readEntries? bound (depth - 1) [] name rest).map fun (entries, rest) =>
          (.object entries, rest)
    | _ => none

/-- Reads the items of an array, behind its opening bracket or a comma. -/
def readItems? : Nat → Nat → List Token → Option (List Value × List Token)
  | 0, _, _ => none
  | bound + 1, depth, tokens =>
    match readUpTo? bound depth tokens with
    | some (item, .closeArray :: rest) => some ([item], rest)
    | some (item, .comma :: rest) =>
      (readItems? bound depth rest).map fun (items, rest) => (item :: items, rest)
    | _ => none

/-- Reads the entries of an object, behind the colon of the first that is left. -/
def readEntries? : Nat → Nat → Object → List Char → List Token → Option (Object × List Token)
  | 0, _, _, _, _ => none
  | bound + 1, depth, entries, name, tokens =>
    match readUpTo? bound depth tokens with
    | some (value, .closeObject :: rest) =>
      some (Association.put (String.ofList name) value entries, rest)
    | some (value, .comma :: .string next :: .colon :: rest) =>
      readEntries? bound depth (Association.put (String.ofList name) value entries) next rest
    | _ => none

end

/-- Reads a value from a text that holds nothing else. -/
def read? (text : String) : Option Value := do
  let tokens ← Token.readAll? text.toList
  match readUpTo? (2 * tokens.length + 2) depthLimit tokens with
  | some (value, []) => some value
  | _ => none

end Value

end ConfigGraft.Json
