import ConfigGraft.Yaml.Character

/-!
# Quoted scalars

Between single quotes only the quote itself is special: it is written twice. Between double quotes
a backslash begins an escape, and at the end of a line it takes the line break back. In both kinds
gaps that go over to another line are folded.
-/

namespace ConfigGraft.Yaml.Quoted

/-- Puts text before the content that was read. -/
def prepend (text : List Char) : Option (List Char × Spot) → Option (List Char × Spot) :=
  Option.map fun (content, spot) => (text ++ content, spot)

/-! ### Single quotes -/

/-- What is read next between single quotes: text behind a gap, or what follows a quote. -/
inductive SingleMode where
  | text (gap : Gap)
  | quote

/-- Reads on between single quotes, to the closing quote. -/
def readSingle? : List Char → Nat → Nat → SingleMode → Option (List Char × Spot)
  | [], _, _, .text _ => none
  | [], line, column, .quote => some ([], ⟨[], line, column⟩)
  | c :: rest, line, column, .text gap =>
    if isBlank c then readSingle? rest line (column + 1) (.text (gap.addBlank c))
    else if isBreak c then readSingle? rest (line + 1) 0 (.text (gap.addBreak c))
    else if column = 0 ∧ isDocumentMark (c :: rest) then none
    else if c = '\x27' then prepend gap.text (readSingle? rest line (column + 1) .quote)
    else prepend (gap.text ++ [c]) (readSingle? rest line (column + 1) (.text {}))
  | c :: rest, line, column, .quote =>
    if c = '\x27' then prepend [c] (readSingle? rest line (column + 1) (.text {}))
    else some ([], ⟨c :: rest, line, column⟩)

/-! ### Double quotes -/

/-- What an escape stands for: a character, or a code point in as many hexadecimal digits. -/
inductive Escape where
  | char (c : Char)
  | code (digits : Nat)

/-- The escape that a character behind a backslash begins. -/
def escape? : Char → Option Escape
  | '0' => some (.char '\x00')
  | 'a' => some (.char '\x07')
  | 'b' => some (.char '\x08')
  | 't' => some (.char '\t')
  | '\t' => some (.char '\t')
  | 'n' => some (.char '\n')
  | 'v' => some (.char '\x0b')
  | 'f' => some (.char '\x0c')
  | 'r' => some (.char '\r')
  | 'e' => some (.char '\x1b')
  | ' ' => some (.char ' ')
  | '"' => some (.char '"')
  | '/' => some (.char '/')
  | '\\' => some (.char '\\')
  | 'N' => some (.char '\u0085')
  | '_' => some (.char '\u00a0')
  | 'L' => some (.char '\u2028')
  | 'P' => some (.char '\u2029')
  | 'x' => some (.code 2)
  | 'u' => some (.code 4)
  | 'U' => some (.code 8)
  | _ => none

/-- The value of a hexadecimal digit. -/
def hexDigit? (c : Char) : Option Nat :=
  if '0' ≤ c ∧ c ≤ '9' then some (c.toNat - 48)
  else if 'a' ≤ c ∧ c ≤ 'f' then some (c.toNat - 87)
  else if 'A' ≤ c ∧ c ≤ 'F' then some (c.toNat - 55)
  else none

/-- The character of a code point; surrogates and numbers beyond the last one have none. -/
def ofCode? (n : Nat) : Option Char := if n.isValidChar then some (Char.ofNat n) else none

/-- What is read next between double quotes: text behind a gap, an escape, or so many further
digits of a code point. -/
inductive DoubleMode where
  | text (gap : Gap)
  | escape
  | code (digits value : Nat)

/-- Reads on between double quotes, to the closing quote. -/
def readDouble? : List Char → Nat → Nat → DoubleMode → Option (List Char × Spot)
  | [], _, _, _ => none
  | c :: rest, line, column, .text gap =>
    if isBlank c then readDouble? rest line (column + 1) (.text (gap.addBlank c))
    else if isBreak c then readDouble? rest (line + 1) 0 (.text (gap.addBreak c))
    else if column = 0 ∧ isDocumentMark (c :: rest) then none
    else if c = '"' then some (gap.text, ⟨rest, line, column + 1⟩)
    else if c = '\\' then prepend gap.text (readDouble? rest line (column + 1) .escape)
    else prepend (gap.text ++ [c]) (readDouble? rest line (column + 1) (.text {}))
  | c :: rest, line, column, .escape =>
    if isBreak c then readDouble? rest (line + 1) 0 (.text { escaped := true })
    else match escape? c with
      | some (.char d) => prepend [d] (readDouble? rest line (column + 1) (.text {}))
      | some (.code digits) => readDouble? rest line (column + 1) (.code digits 0)
      | none => none
  | c :: rest, line, column, .code digits value =>
    match hexDigit? c with
    | none => none
    | some d =>
      if 1 < digits then readDouble? rest line (column + 1) (.code (digits - 1) (16 * value + d))
      else match ofCode? (16 * value + d) with
        | some e => prepend [e] (readDouble? rest line (column + 1) (.text {}))
        | none => none

end ConfigGraft.Yaml.Quoted
