import ConfigGraft.Toml.Value

/-!
# TOML numbers

Numbers as a document spells them: whole numbers in base ten, or in base sixteen, eight or two
behind `0x`, `0o` or `0b`, and floating-point numbers. Underscores may stand between two digits,
and the digits of a decimal number do not begin with a needless zero.
-/

namespace ConfigGraft.Toml.Number

/-- Digits that were read, without underscores, and the text behind them. -/
abbrev ReadDigits := Option (List Char × List Char)

/-- Further digits, each with an underscore before it if wanted. -/
def moreDigits (isDigit : Char → Bool) : List Char → List Char × List Char
  | [] => ([], [])
  | '_' :: c :: rest =>
    if isDigit c then
      let (digits, rest) := moreDigits isDigit rest
      (c :: digits, rest)
    else ([], '_' :: c :: rest)
  | c :: rest =>
    if isDigit c then
      let (digits, rest) := moreDigits isDigit rest
      (c :: digits, rest)
    else ([], c :: rest)

/-- A digit at least, and further ones. -/
def readDigits? (isDigit : Char → Bool) : List Char → ReadDigits
  | [] => none
  | c :: rest =>
    if isDigit c then
      let (digits, rest) := moreDigits isDigit rest
      some (c :: digits, rest)
    else none

/-- The digits of a decimal number before its point: a zero alone, or digits that do not begin with
one. -/
def readPlain? : List Char → ReadDigits
  | '0' :: rest => some (['0'], rest)
  | cs => readDigits? Char.isDigit cs

/-- A sign as text, if there is one, and the text behind it. -/
def readSign : List Char → List Char × List Char
  | '-' :: rest => (['-'], rest)
  | '+' :: rest => ([], rest)
  | cs => ([], cs)

/-! ### Whole numbers -/

/-- The whole number of a size, if it fits into 64 bits. -/
def whole? (negative : Bool) (n : Nat) : Option Value :=
  if n < twoTo 63 ∨ (negative ∧ n = twoTo 63) then
    some (.whole (if negative then -(n : Int) else n))
  else none

/-- Reads a whole number in a base other than ten, behind the sign of the base. -/
def readBase? (base : Nat) (cs : List Char) : Option (Value × List Char) := do
  let (digits, rest) ← readDigits? (fun c => (Decimal.digitValue? base c).isSome) cs
  let value ← (Decimal.natOfDigits? base digits).bind (whole? false)
  some (value, rest)

/-- Reads a whole number. -/
def readWhole? : List Char → Option (Value × List Char)
  | '0' :: 'x' :: rest => readBase? 16 rest
  | '0' :: 'o' :: rest => readBase? 8 rest
  | '0' :: 'b' :: rest => readBase? 2 rest
  | cs => do
    let (sign, rest) := readSign cs
    let (digits, rest) ← readPlain? rest
    let value ← whole? (sign != []) (Decimal.natOfDigits digits)
    some (value, rest)

/-! ### Floating-point numbers -/

/-- Reads a point and digits. -/
def readFraction? : List Char → ReadDigits
  | '.' :: rest => (readDigits? Char.isDigit rest).map fun (digits, rest) => ('.' :: digits, rest)
  | _ => none

/-- Reads an exponent. -/
def readExponent? : List Char → ReadDigits
  | c :: rest =>
    if c = 'e' ∨ c = 'E' then
      let (sign, rest) := readSign rest
      (readDigits? Char.isDigit rest).map fun (digits, rest) => ('e' :: (sign ++ digits), rest)
    else none
  | [] => none

/-- Reads what makes a number a floating-point number: an exponent, or a fraction with an exponent
if wanted. -/
def readTail? (cs : List Char) : ReadDigits :=
  match readExponent? cs with
  | some tail => some tail
  | none =>
    match readFraction? cs with
    | none => none
    | some (fraction, rest) =>
      match readExponent? rest with
      | some (power, rest) => some (fraction ++ power, rest)
      | none => some (fraction, rest)

/-- The floating-point number that digits stand for. Positive numbers have to be within the
range. -/
def float? (cs : List Char) : Option Value :=
  match (Decimal.read? cs).map Binary64.ofDecimal with
  | some (.infinity false) | none => none
  | some x => some (.float x)

/-- Reads a number that is written as a word: without bounds, or undefined. -/
def readWord? (cs : List Char) : Option (Value × List Char) :=
  let (sign, rest) := readSign cs
  match rest with
  | 'i' :: 'n' :: 'f' :: rest => some (.float (.infinity (sign != [])), rest)
  | 'n' :: 'a' :: 'n' :: rest => some (.float .nan, rest)
  | _ => none

/-- Reads a floating-point number. -/
def readFloat? (cs : List Char) : Option (Value × List Char) :=
  let (sign, rest) := readSign cs
  match (readPlain? rest).bind fun (whole, rest) =>
      (readTail? rest).map fun (tail, rest) => (sign ++ whole ++ tail, rest) with
  | some (text, rest) => (float? text).map fun value => (value, rest)
  | none => readWord? cs

/-- Reads a date, a time or a number. -/
def read? (cs : List Char) : Option (Value × List Char) :=
  match Datetime.read? cs with
  | some (d, rest) => some (.datetime d, rest)
  | none =>
    match readFloat? cs with
    | some found => some found
    | none => readWhole? cs

end ConfigGraft.Toml.Number
