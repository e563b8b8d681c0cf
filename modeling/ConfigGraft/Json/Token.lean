import ConfigGraft.Text.Blank

/-!
# JSON tokens

A JSON text is a row of tokens with blanks between them: punctuation, the three words, numbers and
strings. Blanks are space, tab, line feed and carriage return.

The text of a number is kept as it stands, but for its exponent, which is written with a small `e`
and an explicit sign.
-/

namespace ConfigGraft.Json

/-- A token of a JSON text. -/
inductive Token where
  | openArray
  | closeArray
  | openObject
  | closeObject
  | comma
  | colon
  | null
  | bool (b : Bool)
  | number (text : List Char)
  | string (content : List Char)
  deriving DecidableEq, Repr

namespace Token

def isBlank (c : Char) : Bool := c == ' ' || c == '\t' || c == '\n' || c == '\r'

/-! ### Numbers -/

/-- The digits before the point: a zero, or digits that do not begin with one. -/
def readWhole? : List Char → Option (List Char × List Char)
  | '0' :: rest => some (['0'], rest)
  | cs => match cs.takeWhile Char.isDigit with
    | [] => none
    | digits => some (digits, cs.dropWhile Char.isDigit)

/-- A point and digits behind it, or nothing. -/
def readFraction? : List Char → Option (List Char × List Char)
  | '.' :: rest => match rest.takeWhile Char.isDigit with
    | [] => none
    | digits => some ('.' :: digits, rest.dropWhile Char.isDigit)
  | cs => some ([], cs)

/-- The digits of an exponent behind its sign. -/
def readPower? (sign : Char) (cs : List Char) : Option (List Char × List Char) :=
  match cs.takeWhile Char.isDigit with
  | [] => none
  | digits => some ('e' :: sign :: digits, cs.dropWhile Char.isDigit)

/-- An exponent, or nothing. -/
def readExponent? : List Char → Option (List Char × List Char)
  | c :: rest =>
    if c = 'e' ∨ c = 'E' then
      match rest with
      | '+' :: rest => readPower? '+' rest
      | '-' :: rest => readPower? '-' rest
      | rest => readPower? '+' rest
    else some ([], c :: rest)
  | [] => some ([], [])

/-- A number without its sign. -/
def readUnsigned? (cs : List Char) : Option (List Char × List Char) := do
  let (whole, cs) ← readWhole? cs
  let (fraction, cs) ← readFraction? cs
  let (exponent, cs) ← readExponent? cs
  some (whole ++ fraction ++ exponent, cs)

/-- A number, and the text behind it. -/
def readNumber? : List Char → Option (List Char × List Char)
  | '-' :: cs => (readUnsigned? cs).map fun (text, rest) => ('-' :: text, rest)
  | cs => readUnsigned? cs

/-! ### Strings -/

/-- The value of a hexadecimal digit. -/
def hexDigit? (c : Char) : Option Nat :=
  if c.isDigit then some (c.toNat - 48)
  else if 'a' ≤ c ∧ c ≤ 'f' then some (c.toNat - 87)
  else if 'A' ≤ c ∧ c ≤ 'F' then some (c.toNat - 55)
  else none

/-- The number that four hexadecimal digits stand for. -/
def hex4? (a b c d : Char) : Option Nat := do
  some ((((← hexDigit? a) * 16 + (← hexDigit? b)) * 16 + (← hexDigit? c)) * 16 + (← hexDigit? d))

def isHighSurrogate (n : Nat) : Bool := 0xD800 ≤ n && n < 0xDC00

def isLowSurrogate (n : Nat) : Bool := 0xDC00 ≤ n && n < 0xE000

/-- The character that a pair of surrogates stands for. -/
def ofSurrogates (high low : Nat) : Char :=
  Char.ofNat (0x10000 + (high - 0xD800) * 0x400 + (low - 0xDC00))

/-- The character that a backslash and one further character stand for. -/
def unescape? : Char → Option Char
  | '"' => some '"'
  | '\\' => some '\\'
  | '/' => some '/'
  | 'b' => some '\x08'
  | 'f' => some '\x0c'
  | 'n' => some '\n'
  | 'r' => some '\r'
  | 't' => some '\t'
  | _ => none

/-- Puts a character before the content that was read. -/
def consChar (c : Char) : Option (List Char × List Char) → Option (List Char × List Char) :=
  Option.map fun (content, rest) => (c :: content, rest)

/-- The content of a string up to its closing quote, and the text behind that. Surrogates count
only in pairs, and control characters have to be escaped. -/
def readString? : List Char → Option (List Char × List Char)
  | [] => none
  | '"' :: rest => some ([], rest)
  | '\\' :: 'u' :: a :: b :: c :: d :: rest =>
    match hex4? a b c d with
    | none => none
    | some unit =>
      if isHighSurrogate unit then
        match rest with
        | '\\' :: 'u' :: e :: f :: g :: h :: rest =>
          match hex4? e f g h with
          | some low =>
            if isLowSurrogate low then consChar (ofSurrogates unit low) (readString? rest)
            else none
          | none => none
        | _ => none
      else if isLowSurrogate unit then none
      else consChar (Char.ofNat unit) (readString? rest)
  | '\\' :: c :: rest =>
    match unescape? c with
    | some c => consChar c (readString? rest)
    | none => none
  | c :: rest =>
    if c = '\\' ∨ c.toNat < 0x20 then none else consChar c (readString? rest)

/-! ### Rows of tokens -/

/-- Reads one token at the start of a text, and gives the text behind it. -/
def read? : List Char → Option (Token × List Char)
  | '[' :: rest => some (.openArray, rest)
  | ']' :: rest => some (.closeArray, rest)
  | '{' :: rest => some (.openObject, rest)
  | '}' :: rest => some (.closeObject, rest)
  | ',' :: rest => some (.comma, rest)
  | ':' :: rest => some (.colon, rest)
  | 'n' :: 'u' :: 'l' :: 'l' :: rest => some (.null, rest)
  | 't' :: 'r' :: 'u' :: 'e' :: rest => some (.bool true, rest)
  | 'f' :: 'a' :: 'l' :: 's' :: 'e' :: rest => some (.bool false, rest)
  | '"' :: rest => (readString? rest).map fun (content, rest) => (.string content, rest)
  | cs => (readNumber? cs).map fun (text, rest) => (.number text, rest)

/-- Reads tokens to the end of a text; the number bounds how many steps are taken. -/
def readUpTo? : Nat → List Char → Option (List Token)
  | 0, _ => none
  | bound + 1, cs =>
    match cs.dropWhile isBlank with
    | [] => some []
    | cs => do
      let (token, rest) ← read? cs
      let more ← readUpTo? bound rest
      some (token :: more)

/-- The tokens of a text. Every token takes at least one character, which bounds the steps. -/
def readAll? (cs : List Char) : Option (List Token) := readUpTo? (cs.length + 1) cs

end Token

end ConfigGraft.Json
