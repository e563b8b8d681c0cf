import ConfigGraft.Json.Value

/-!
# Writing JSON

Every entry and every item stands on a line of its own, two spaces further in than what holds it.
Empty arrays and objects are written as two brackets.
-/

namespace ConfigGraft.Json

/-- A hexadecimal digit. -/
def hexDigit (n : Nat) : Char := if n < 10 then Char.ofNat (48 + n) else Char.ofNat (87 + n)

/-- A character as it stands in a string. -/
def escapeChar (c : Char) : List Char :=
  if c = '"' then ['\\', '"']
  else if c = '\\' then ['\\', '\\']
  else if c = '\x08' then ['\\', 'b']
  else if c = '\x0c' then ['\\', 'f']
  else if c = '\n' then ['\\', 'n']
  else if c = '\r' then ['\\', 'r']
  else if c = '\t' then ['\\', 't']
  else if c.toNat < 0x20 then
    ['\\', 'u', '0', '0', hexDigit (c.toNat / 16), hexDigit (c.toNat % 16)]
  else [c]

/-- A text in quotes. -/
def quote (s : String) : List Char :=
  '"' :: (s.toList.flatMap escapeChar ++ ['"'])

/-- A new line with the blanks that a level begins with. -/
def newline (level : Nat) : List Char := '\n' :: List.replicate (2 * level) ' '

namespace Value

mutual

/-- A value on a level, before the text that follows it. -/
def writeBefore (level : Nat) : Value → List Char → List Char
  | .null, rest => "null".toList ++ rest
  | .bool true, rest => "true".toList ++ rest
  | .bool false, rest => "false".toList ++ rest
  | .number text, rest => text.toList ++ rest
  | .string s, rest => quote s ++ rest
  | .array [], rest => '[' :: ']' :: rest
  | .array (item :: more), rest =>
    '[' :: (newline (level + 1) ++ writeBefore (level + 1) item
      (writeItems (level + 1) more (newline level ++ ']' :: rest)))
  | .object [], rest => '{' :: '}' :: rest
  | .object ((name, value) :: more), rest =>
    '{' :: (newline (level + 1) ++ (quote name ++ ':' :: ' ' :: writeBefore (level + 1) value
      (writeEntries (level + 1) more (newline level ++ '}' :: rest))))

/-- The items behind the first, before the text that follows them. -/
def writeItems (level : Nat) : List Value → List Char → List Char
  | [], rest => rest
  | item :: more, rest =>
    ',' :: (newline level ++ writeBefore level item (writeItems level more rest))

/-- The entries behind the first, before the text that follows them. -/
def writeEntries (level : Nat) : List (String × Value) → List Char → List Char
  | [], rest => rest
  | (name, value) :: more, rest =>
    ',' :: (newline level ++ (quote name ++ ':' :: ' ' :: writeBefore level value
      (writeEntries level more rest)))

end

end Value

/-- The text of a document: an object, and the end of its last line. -/
def render (entries : List (String × Value)) : List Char :=
  (Value.object entries).writeBefore 0 ['\n']

end ConfigGraft.Json
