/-!
# TOML strings and keys

Strings stand between quotation marks, where a backslash introduces escapes, or between
apostrophes, where nothing is special. Three marks instead of one open a string over several lines;
a line break right behind them does not count, and every other one is a line feed.

A string is written in the plainest kind that can hold it, and a key without quotes if it can be.
-/

namespace ConfigGraft.Toml

/-- Control characters other than the tab, which have no place in a document. -/
def isControl (c : Char) : Bool := (c.toNat < 0x20 && c != '\t') || c.toNat == 0x7F

/-- Text that was read, and the text behind it. -/
abbrev ReadText := Option (List Char × List Char)

namespace Quoted

/-- Puts a character before the text that was read. -/
def consChar (c : Char) : ReadText → ReadText :=
  Option.map fun (content, rest) => (c :: content, rest)

/-! ### Escapes -/

def hexDigit? (c : Char) : Option Nat :=
  if '0' ≤ c ∧ c ≤ '9' then some (c.toNat - 48)
  else if 'a' ≤ c ∧ c ≤ 'f' then some (c.toNat - 87)
  else if 'A' ≤ c ∧ c ≤ 'F' then some (c.toNat - 55)
  else none

/-- The character whose code point is given by hexadecimal digits. -/
def ofHex? (digits : List Char) : Option Char := do
  let n ← digits.foldlM (fun n c => (hexDigit? c).map (n * 16 + ·)) 0
  if n.isValidChar then some (Char.ofNat n) else none

/-- The character that a backslash and one further character stand for. -/
def unescape? : Char → Option Char
  | 'b' => some '\x08'
  | 't' => some '\t'
  | 'n' => some '\n'
  | 'f' => some '\x0c'
  | 'r' => some '\r'
  | '"' => some '"'
  | '\\' => some '\\'
  | _ => none

/-! ### Strings on one line -/

/-- Reads on behind a quotation mark, to the closing one. -/
def readBasic? : List Char → ReadText
  | [] => none
  | '"' :: rest => some ([], rest)
  | '\\' :: 'u' :: a :: b :: c :: d :: rest =>
    match ofHex? [a, b, c, d] with
    | some e => consChar e (readBasic? rest)
    | none => none
  | '\\' :: 'U' :: a :: b :: c :: d :: e :: f :: g :: h :: rest =>
    match ofHex? [a, b, c, d, e, f, g, h] with
    | some e => consChar e (readBasic? rest)
    | none => none
  | '\\' :: c :: rest =>
    match unescape? c with
    | some e => consChar e (readBasic? rest)
    | none => none
  | c :: rest => if isControl c || c == '\\' then none else consChar c (readBasic? rest)

/-- Reads on behind an apostrophe, to the closing one. -/
def readLiteral? : List Char → ReadText
  | [] => none
  | c :: rest =>
    if c = '\x27' then some ([], rest)
    else if isControl c then none
    else consChar c (readLiteral? rest)

/-! ### Strings over several lines -/

def isBlank (c : Char) : Bool := c == ' ' || c == '\t'

/-- A text without one line break at its start. -/
def dropBreak : List Char → List Char
  | '\n' :: rest => rest
  | '\x0d' :: '\n' :: rest => rest
  | cs => cs

/-- Whether a text begins with a line break. -/
def atBreak : List Char → Bool
  | '\n' :: _ => true
  | '\x0d' :: '\n' :: _ => true
  | _ => false

/-- Reads on behind three quotation marks, to the closing three, before which up to two may stand.
With `trim` the blanks and line breaks that come next are left out. -/
def readBasicLines? : List Char → Bool → ReadText
  | [], _ => none
  | '"' :: '"' :: '"' :: '"' :: '"' :: rest, _ => some (['"', '"'], rest)
  | '"' :: '"' :: '"' :: '"' :: rest, _ => some (['"'], rest)
  | '"' :: '"' :: '"' :: rest, _ => some ([], rest)
  | '\\' :: 'u' :: a :: b :: c :: d :: rest, _ =>
    match ofHex? [a, b, c, d] with
    | some e => consChar e (readBasicLines? rest false)
    | none => none
  | '\\' :: 'U' :: a :: b :: c :: d :: e :: f :: g :: h :: rest, _ =>
    match ofHex? [a, b, c, d, e, f, g, h] with
    | some e => consChar e (readBasicLines? rest false)
    | none => none
  | '\\' :: c :: rest, _ =>
    match unescape? c with
    | some e => consChar e (readBasicLines? rest false)
    | none =>
      if atBreak ((c :: rest).dropWhile isBlank) then readBasicLines? rest true else none
  | c :: rest, trim =>
    if trim && (isBlank c || atBreak (c :: rest)) then readBasicLines? rest true
    else if c = '\n' then consChar c (readBasicLines? rest false)
    else if atBreak (c :: rest) then readBasicLines? rest false
    else if isControl c || c == '\\' then none
    else consChar c (readBasicLines? rest false)

/-- Reads on behind three apostrophes, to the closing three, before which up to two may stand. -/
def readLiteralLines? : List Char → ReadText
  | [] => none
  | '\x27' :: '\x27' :: '\x27' :: '\x27' :: '\x27' :: rest => some (['\x27', '\x27'], rest)
  | '\x27' :: '\x27' :: '\x27' :: '\x27' :: rest => some (['\x27'], rest)
  | '\x27' :: '\x27' :: '\x27' :: rest => some ([], rest)
  | c :: rest =>
    if c = '\n' then consChar c (readLiteralLines? rest)
    else if atBreak (c :: rest) then readLiteralLines? rest
    else if isControl c then none
    else consChar c (readLiteralLines? rest)

/-- Reads a string of any kind. -/
def read? : List Char → ReadText
  | '"' :: '"' :: '"' :: rest => readBasicLines? (dropBreak rest) false
  | '"' :: rest => readBasic? rest
  | '\x27' :: '\x27' :: '\x27' :: rest => readLiteralLines? (dropBreak rest)
  | '\x27' :: rest => readLiteral? rest
  | _ => none

/-! ### Writing strings -/

/-- The length of the longest run of a character, where `run` of it stand right before the text. -/
def longestRun (mark : Char) : Nat → List Char → Nat
  | run, [] => run
  | run, c :: rest =>
    if c = mark then longestRun mark (run + 1) rest else max run (longestRun mark 0 rest)

/-- Whether a text has characters that stand in strings as escapes only. -/
def needsEscapes (cs : List Char) : Bool := cs.any fun c => isControl c && c != '\n'

/-- An upper-case hexadecimal digit. -/
def hexDigit (n : Nat) : Char := if n < 10 then Char.ofNat (48 + n) else Char.ofNat (55 + n)

/-- A character other than a quotation mark as it stands in a string with escapes. -/
def escapeChar (lines : Bool) (c : Char) : List Char :=
  if c = '\x08' then ['\\', 'b']
  else if c = '\t' then ['\\', 't']
  else if c = '\n' then if lines then [c] else ['\\', 'n']
  else if c = '\x0c' then ['\\', 'f']
  else if c = '\r' then ['\\', 'r']
  else if c = '\\' then ['\\', '\\']
  else if isControl c then ['\\', 'u', '0', '0', hexDigit (c.toNat / 16), hexDigit (c.toNat % 16)]
  else [c]

/-- A text with escapes. In a string over several lines two quotation marks may stand together as
they are, `run` of which stand right before the text. -/
def escape (lines : Bool) : Nat → List Char → List Char
  | _, [] => []
  | run, c :: rest =>
    if c = '"' then
      if lines ∧ run < 2 then c :: escape lines (run + 1) rest
      else '\\' :: c :: escape lines 0 rest
    else escapeChar lines c ++ escape lines 0 rest

/-- A text between marks. -/
def enclose (mark content : List Char) : List Char := mark ++ content ++ mark

/-- The three marks of a string over several lines, behind which a text with line breaks begins on
a line of its own. -/
def encloseLines (mark : Char) (cs content : List Char) : List Char :=
  [mark, mark, mark] ++ (if cs.contains '\n' then ['\n'] else []) ++ content ++ [mark, mark, mark]

/-- A string as it is written. -/
def write (cs : List Char) : List Char :=
  let bare := !needsEscapes cs && !cs.contains '\\'
  if bare && !cs.contains '"' && !cs.contains '\n' then enclose ['"'] (escape false 0 cs)
  else if !needsEscapes cs && !cs.contains '\x27' && !cs.contains '\n' then enclose ['\x27'] cs
  else if bare && longestRun '"' 0 cs ≤ 2 then encloseLines '"' cs (escape true 0 cs)
  else if !needsEscapes cs && longestRun '\x27' 0 cs ≤ 2 then encloseLines '\x27' cs cs
  else if cs.contains '\n' then encloseLines '"' cs (escape true 0 cs)
  else enclose ['"'] (escape false 0 cs)

end Quoted

namespace Key

/-- Characters of a key without quotes. -/
def isBareChar (c : Char) : Bool := c.isAlphanum || c == '-' || c == '_'

/-- Reads a key. -/
def read? : List Char → ReadText
  | '"' :: rest => Quoted.readBasic? rest
  | '\x27' :: rest => Quoted.readLiteral? rest
  | cs =>
    if (cs.takeWhile isBareChar).isEmpty then none
    else some (cs.takeWhile isBareChar, cs.dropWhile isBareChar)

/-- A key as it is written. -/
def write (cs : List Char) : List Char :=
  if !cs.isEmpty && cs.all isBareChar then cs
  else if !cs.any isControl && !cs.contains '\\' && !cs.contains '"' then
    Quoted.enclose ['"'] (Quoted.escape false 0 cs)
  else if !cs.any isControl && !cs.contains '\x27' then Quoted.enclose ['\x27'] cs
  else Quoted.enclose ['"'] (Quoted.escape false 0 cs)

end Key

end ConfigGraft.Toml
