import ConfigGraft.Properties.Table

/-!
# Writing properties

Every entry is written on a line of its own, in the order of the keys. Backslashes protect what
would be read as something else, and every character outside printable ASCII is written as its
UTF-16 units, so that the text reads the same in every encoding.
-/

namespace ConfigGraft.Properties

/-- An upper-case hexadecimal digit. -/
def hexDigit (n : Nat) : Char := if n < 10 then Char.ofNat (48 + n) else Char.ofNat (55 + n)

/-- The escape of a UTF-16 unit. -/
def escapeUnit (n : Nat) : List Char :=
  ['\\', 'u', hexDigit (n / 4096 % 16), hexDigit (n / 256 % 16), hexDigit (n / 16 % 16),
    hexDigit (n % 16)]

/-- The escapes of the one or two UTF-16 units of a character. -/
def escapeUnits (c : Char) : List Char :=
  if c.toNat < 0x10000 then escapeUnit c.toNat
  else
    escapeUnit (0xD800 + (c.toNat - 0x10000) / 0x400) ++
      escapeUnit (0xDC00 + (c.toNat - 0x10000) % 0x400)

/-- A character as it is written; `guarded` says whether a space needs protection. -/
def escapeChar (guarded : Bool) (c : Char) : List Char :=
  if c = '\\' then ['\\', '\\']
  else if c = '\t' then ['\\', 't']
  else if c = '\n' then ['\\', 'n']
  else if c = '\r' then ['\\', 'r']
  else if c = '\x0c' then ['\\', 'f']
  else if c = ' ' then if guarded then ['\\', ' '] else [' ']
  else if c = '=' ∨ c = ':' ∨ c = '#' ∨ c = '!' then ['\\', c]
  else if c < ' ' ∨ '~' < c then escapeUnits c
  else [c]

/-- A key: every space is protected. -/
def escapeKey (key : List Char) : List Char := key.flatMap (escapeChar true)

/-- A value: a space is protected at the start only. -/
def escapeValue : List Char → List Char
  | [] => []
  | c :: rest => escapeChar true c ++ rest.flatMap (escapeChar false)

/-- A key and its value on a line. -/
def writeEntry (e : String × String) : List Char :=
  escapeKey e.1.toList ++ '=' :: (escapeValue e.2.toList ++ ['\n'])

/-- The text of a table. -/
def render (table : Properties) : List Char := table.entries.flatMap writeEntry

end ConfigGraft.Properties
