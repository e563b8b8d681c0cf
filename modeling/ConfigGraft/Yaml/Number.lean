import ConfigGraft.Binary64

/-!
# YAML numbers

Whole numbers of up to 64 bits, with or without a sign, and floating-point numbers. Whole numbers
are written in base ten, or in base sixteen, eight or two behind `0x`, `0o` or `0b`. Digits behind
a needless zero are no number.
-/

namespace ConfigGraft.Yaml

/-- A number. -/
inductive Number where
  | whole (n : Int)
  | float (x : Binary64)
  deriving DecidableEq, Repr

namespace Number

/-! ### Reading -/

/-- Whether a text is a zero and further digits, behind a sign or not. -/
def isPaddedDigits (cs : List Char) : Bool :=
  match (Decimal.splitSign cs).2 with
  | '0' :: rest => !rest.isEmpty && rest.all Char.isDigit
  | _ => false

/-- The number that digits behind a base sign stand for, if there is a base sign. -/
def ofBase? : List Char → Option Nat
  | '0' :: 'x' :: digits => Decimal.natOfDigits? 16 digits
  | '0' :: 'o' :: digits => Decimal.natOfDigits? 8 digits
  | '0' :: 'b' :: digits => Decimal.natOfDigits? 2 digits
  | _ => none

/-- A text without a plus sign at its start. -/
def dropPlus : List Char → List Char
  | '+' :: rest => rest
  | cs => cs

/-- The size of a whole number in a text without a sign. -/
def size? (padded : Bool) (cs : List Char) : Option Nat :=
  match ofBase? cs with
  | some n => some n
  | none => if padded then none else Decimal.natOfDigits? 10 cs

/-- Reads a whole number. The sizes are not bounded here. -/
def readWhole? (cs : List Char) : Option Int :=
  match cs with
  | '-' :: rest => (size? (isPaddedDigits cs) rest).map fun n => -(n : Int)
  | _ => (size? (isPaddedDigits cs) (dropPlus cs)).map Int.ofNat

/-- Whether a whole number fits into so many bits, as one with a sign if it is negative. -/
def fits (bits : Nat) (n : Int) : Bool := -(twoTo (bits - 1) : Int) ≤ n && n < twoTo bits

/-- Reads a floating-point number. What is beyond the range is no number. -/
def readFloat? (cs : List Char) : Option Binary64 :=
  let unsigned := dropPlus cs
  if [".inf".toList, ".Inf".toList, ".INF".toList].contains unsigned then some (.infinity false)
  else if ["-.inf".toList, "-.Inf".toList, "-.INF".toList].contains cs then some (.infinity true)
  else if [".nan".toList, ".NaN".toList, ".NAN".toList].contains cs then some .nan
  else if cs.head? = some '+' ∧ (unsigned.head? = some '+' ∨ unsigned.head? = some '-') then none
  else match Decimal.read? unsigned with
    | some d => if (Binary64.ofDecimal d).isFinite then some (.ofDecimal d) else none
    | none => none

/-! ### Writing -/

/-- The text of a floating-point number: the fewest digits that read back, with all places for
numbers of up to sixteen digits and down to five places behind the point. -/
def floatText : Binary64 → List Char
  | .nan => ".nan".toList
  | .infinity negative => if negative then "-.inf".toList else ".inf".toList
  | .finite negative m e =>
    let d := Binary64.toDecimal negative m e
    if m = 0 then d.signText ++ "0.0".toList
    else if -5 < d.magnitude ∧ d.magnitude ≤ 16 then d.positional
    else d.scientific

/-- The text of a number. -/
def text : Number → List Char
  | .whole n => (toString n).toList
  | .float x => floatText x

/-- Whether two numbers are the same: whole numbers and floating-point numbers never are. -/
def same : Number → Number → Bool
  | .whole m, .whole n => m == n
  | .float x, .float y => x.sameNumber y
  | _, _ => false

end Number

end ConfigGraft.Yaml
