import ConfigGraft.Yaml.Scalar.Style

/-!
# Writing YAML

Collections are written in block layout, two columns further in on each level, and empty ones as
brackets. A sequence that is the value of a key is not indented. A collection behind a dash or a
question mark begins on the same line, unless a tag stands before it.

A key is written before a colon if it fits on a line and is not long; other keys are introduced by
a question mark.

Not every document can be written: see `Value.isWritable`.
-/

namespace ConfigGraft.Yaml

/-! ### Scalars -/

def spaces (n : Nat) : List Char := List.replicate n ' '

/-- An upper-case hexadecimal digit. -/
def upperHexDigit (n : Nat) : Char := if n < 10 then Char.ofNat (48 + n) else Char.ofNat (55 + n)

/-- A number as so many hexadecimal digits. -/
def hexDigits : Nat → Nat → List Char
  | 0, _ => []
  | count + 1, n => hexDigits count (n / 16) ++ [upperHexDigit (n % 16)]

/-- The escape of a code point, as short as it can be. -/
def escapeCode (n : Nat) : List Char :=
  if n ≤ 0xFF then 'x' :: hexDigits 2 n
  else if n ≤ 0xFFFF then 'u' :: hexDigits 4 n
  else 'U' :: hexDigits 8 n

/-- What stands behind the backslash for a character. -/
def escapeText (c : Char) : List Char :=
  if c = '\x00' then ['0']
  else if c = '\x07' then ['a']
  else if c = '\x08' then ['b']
  else if c = '\t' then ['t']
  else if c = '\n' then ['n']
  else if c = '\x0b' then ['v']
  else if c = '\x0c' then ['f']
  else if c = '\r' then ['r']
  else if c = '\x1b' then ['e']
  else if c = '"' ∨ c = '\\' then [c]
  else if c = '\u0085' then ['N']
  else if c = '\u2028' then ['L']
  else if c = '\u2029' then ['P']
  else escapeCode c.toNat

/-- A character between double quotes. -/
def doubleChar (c : Char) : List Char :=
  if !Style.isPrintable c || Style.endsLine c || c == '"' || c == '\\' then '\\' :: escapeText c
  else [c]

/-- The text between single quotes. Behind breaks the line is indented. -/
def singleText (indent : Nat) : Bool → List Char → List Char
  | broken, [] => if broken then spaces indent else []
  | broken, c :: rest =>
    if Style.endsLine c then
      (if c = '\n' ∧ !broken then ['\n', '\n'] else [c]) ++ singleText indent true rest
    else if c = ' ' then c :: singleText indent broken rest
    else
      (if broken then spaces indent else []) ++ (if c = '\x27' then [c, c] else [c]) ++
        singleText indent false rest

/-- The lines of a literal block, each with text on it indented. -/
def literalText (indent : Nat) : Bool → List Char → List Char
  | _, [] => []
  | broken, c :: rest =>
    if Style.endsLine c then c :: literalText indent true rest
    else (if broken then spaces indent else []) ++ c :: literalText indent false rest

/-- The header of a literal block: an indentation if the text begins with a blank line or a space,
and what becomes of the breaks at its end. -/
def literalHeader (cs : List Char) : List Char :=
  let begins := match cs with
    | c :: _ => c == ' ' || Style.endsLine c
    | [] => false
  let ends := match cs.reverse with
    | [] => ['-']
    | [c] => if Style.endsLine c then ['+'] else ['-']
    | c :: d :: _ =>
      if !Style.endsLine c then ['-'] else if Style.endsLine d then ['+'] else []
  '|' :: ((if begins then ['2'] else []) ++ ends)

/-- A text in a style; lines of its own are indented. -/
def scalarText (indent : Nat) (cs : List Char) : Style → List Char
  | .plain => cs
  | .single => '\x27' :: (singleText indent false cs ++ ['\x27'])
  | .double => '"' :: (cs.flatMap doubleChar ++ ['"'])
  | .literal => literalHeader cs ++ '\n' :: literalText indent true cs

/-- A text as a scalar. -/
def stringText (isKey : Bool) (indent : Nat) (s : String) : List Char :=
  scalarText indent s.toList (Style.ofText isKey s.toList)

/-! ### Tags -/

/-- The bytes of a tag that can be written as they are. -/
def isPlainTagChar (c : Char) : Bool :=
  isWordChar c || ";/?:@&=+$,.~*'()[]".toList.contains c

/-- A byte behind a percent sign. -/
def percentByte (b : UInt8) : List Char := '%' :: hexDigits 2 b.toNat

/-- A character of a tag. -/
def tagChar (c : Char) : List Char :=
  if isPlainTagChar c then [c]
  else (String.singleton c).toUTF8.toList.flatMap percentByte

/-- The whole text of a tag with a name: the name behind an exclamation mark. -/
def tagName (name : String) : List Char :=
  match name.toList with
  | '!' :: rest => '!' :: rest
  | cs => '!' :: cs

/-- A tag as it is written. -/
def tagText (name : String) : List Char :=
  match tagName name with
  | '!' :: c :: rest => '!' :: (c :: rest).flatMap tagChar
  | cs => '!' :: '<' :: (cs.flatMap tagChar ++ ['>'])

namespace Value

/-! ### Keys on one line -/

/-- The text of a scalar, before it is put in a style. -/
def scalar? : Value → Option (List Char)
  | .null => some "null".toList
  | .bool b => some (if b then "true".toList else "false".toList)
  | .number n => some n.text
  | .string s => some s.toList
  | _ => none

/-- How much room a value takes before a colon; `none` if it cannot stand there at all. -/
def keySize? : Value → Option Nat
  | .string s => if s.toList.any Style.endsLine then none else some s.utf8ByteSize
  | .sequence [] | .mapping [] => some 0
  | .sequence _ | .mapping _ => none
  | .tagged name v => v.keySize?.map (· + (String.ofList (tagName name)).utf8ByteSize)
  | v => v.scalar?.map List.length

/-- Whether a value stands before a colon when it is a key. -/
def isShortKey (v : Value) : Bool := v.keySize?.any (· ≤ 128)

/-- A value on one line. -/
def lineText (isKey : Bool) (indent : Nat) : Value → List Char
  | .string s => stringText isKey indent s
  | .sequence _ => ['[', ']']
  | .mapping _ => ['{', '}']
  | .tagged name v => tagText name ++ ' ' :: lineText isKey indent v
  | v => v.scalar?.getD []

/-! ### Blocks -/

/-- Where a value stands: behind a key, behind a sign that introduces a part of an entry, or behind
the dash of an item. -/
inductive Place where
  | afterKey
  | afterSign
  | afterDash
  deriving DecidableEq, Repr

/-- What stands before the first line of a collection: the rest of a line that goes on, or a break
and the indentation. -/
def lead (sameLine : Bool) (indent : Nat) : List Char :=
  if sameLine then [' '] else '\n' :: spaces indent

/-- The text with a line feed behind it, unless it ends in a break already. -/
def endLine (cs : List Char) : List Char :=
  if cs.getLast?.any Style.endsLine then cs else cs ++ ['\n']

/-- How far a sequence is indented that belongs to a collection with the given indentation. -/
def sequenceIndent (place : Place) (tagged : Bool) (indent : Nat) : Nat :=
  match place with
  | .afterKey => indent
  | .afterSign => if tagged then indent else indent + 2
  | .afterDash => indent + 2

mutual

/-- A value behind the sign that introduces it, to the end of its last line, before the text that
follows it. `indent` is the indentation of the collection that it belongs to; `tagged` says that a
tag stands before it. -/
def blockBefore (place : Place) (tagged : Bool) (indent : Nat) : Value → List Char → List Char
  | .tagged name v, rest => ' ' :: (tagText name ++ blockBefore place true indent v rest)
  | .sequence items, rest =>
    if items.isEmpty then " []\n".toList ++ rest
    else
      let inner := sequenceIndent place tagged indent
      itemsBefore (lead (!tagged && place != .afterKey) inner) inner items rest
  | .mapping entries, rest =>
    if entries.isEmpty then " \x7b\x7d\n".toList ++ rest
    else
      entriesBefore (lead (!tagged && place != .afterKey) (indent + 2)) (indent + 2) entries rest
  | v, rest => ' ' :: (endLine (lineText false (indent + 2) v) ++ rest)

/-- The items of a sequence before the text that follows them; `lead` stands before the first
one. -/
def itemsBefore (lead : List Char) (indent : Nat) : List Value → List Char → List Char
  | [], rest => rest
  | item :: more, rest =>
    lead ++ '-' :: blockBefore .afterDash false indent item
      (itemsBefore (spaces indent) indent more rest)

/-- The entries of a mapping before the text that follows them; `lead` stands before the first
one. -/
def entriesBefore (lead : List Char) (indent : Nat) : List (Value × Value) → List Char → List Char
  | [], rest => rest
  | (key, value) :: more, rest =>
    let rest := entriesBefore (spaces indent) indent more rest
    lead ++
      if key.isShortKey then
        lineText true (indent + 2) key ++ ':' :: blockBefore .afterKey false indent value rest
      else
        '?' :: blockBefore .afterSign false indent key
          (spaces indent ++ ':' :: blockBefore .afterSign false indent value rest)

end

/-! ### What can be written -/

/-- Whether a value can be taken for the start of a tag when it is the only key of a mapping. -/
def blursTag : Value → Bool
  | .mapping [_] => true
  | .tagged .. => true
  | _ => false

mutual

/-- Whether a value can be written. A tag is written like a mapping of one entry before it is
known to be one, so the only key of a mapping without a tag must not be a mapping of one entry
or a tagged value itself, and no tag stands right behind another. -/
def isWritable (tagged : Bool) : Value → Bool
  | .tagged _ v => !tagged && isWritable true v
  | .sequence items => itemsWritable items
  | .mapping [(key, value)] =>
    (tagged || !key.blursTag) && isWritable false key && isWritable false value
  | .mapping entries => entriesWritable entries
  | _ => true

def itemsWritable : List Value → Bool
  | [] => true
  | item :: more => isWritable false item && itemsWritable more

def entriesWritable : List (Value × Value) → Bool
  | [] => true
  | (key, value) :: more =>
    isWritable false key && isWritable false value && entriesWritable more

end

end Value

/-- The text of a document, if it can be written. -/
def render? (entries : Mapping) : Option (List Char) :=
  if (Value.mapping entries).isWritable false then
    some (if entries.isEmpty then "\x7b\x7d\n".toList else Value.entriesBefore [] 0 entries [])
  else none

end ConfigGraft.Yaml
