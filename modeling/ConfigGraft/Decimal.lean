/-!
# Decimal numbers

A decimal number is a sign, a whole number of units and a power of ten. This module reads such
numbers from text and writes them, either with all their places or with an exponent.
-/

namespace ConfigGraft

/-- A power of two. -/
def twoTo (k : Nat) : Nat := Nat.pow 2 k

/-- A power of ten. -/
def tenTo (k : Nat) : Nat := Nat.pow 10 k

/-- The number `±coefficient · 10 ^ exponent`. -/
structure Decimal where
  negative : Bool := false
  coefficient : Nat
  exponent : Int
  deriving DecidableEq, Repr

namespace Decimal

/-! ### Reading -/

/-- The value of a digit in a base up to sixteen. -/
def digitValue? (base : Nat) (c : Char) : Option Nat :=
  let n :=
    if c.isDigit then c.toNat - 48
    else if 'a' ≤ c ∧ c ≤ 'f' then c.toNat - 87
    else if 'A' ≤ c ∧ c ≤ 'F' then c.toNat - 55
    else 16
  if n < base then some n else none

/-- The number that digits of a base stand for; there has to be a digit. -/
def natOfDigits? (base : Nat) : List Char → Option Nat
  | [] => none
  | c :: cs => (c :: cs).foldlM (fun n c => (digitValue? base c).map (n * base + ·)) 0

/-- The number that decimal digits stand for, zero if there is none. -/
def natOfDigits (cs : List Char) : Nat :=
  cs.foldl (fun n c => n * 10 + (c.toNat - 48)) 0

/-- Takes a sign off a text; the mark says whether it was a minus sign. -/
def splitSign : List Char → Bool × List Char
  | '-' :: rest => (true, rest)
  | '+' :: rest => (false, rest)
  | cs => (false, cs)

/-- An exponent at the end of a number: nothing, or `e`, a sign if wanted, and digits. -/
def readExponent? : List Char → Option Int
  | [] => some 0
  | c :: rest =>
    if c = 'e' ∨ c = 'E' then
      let (negative, digits) := splitSign rest
      if digits ≠ [] ∧ digits.all Char.isDigit then
        some (if negative then -(natOfDigits digits : Int) else natOfDigits digits)
      else none
    else none

/-- Reads digits with at most one point among them or at an end, and an exponent behind them, all
behind a sign if wanted. There has to be a digit before the exponent. -/
def read? (cs : List Char) : Option Decimal :=
  let (negative, cs) := splitSign cs
  let whole := cs.takeWhile Char.isDigit
  let rest := cs.dropWhile Char.isDigit
  let (fraction, rest) := match rest with
    | '.' :: rest => (rest.takeWhile Char.isDigit, rest.dropWhile Char.isDigit)
    | rest => ([], rest)
  if whole = [] ∧ fraction = [] then none
  else (readExponent? rest).map fun e => {
    negative
    coefficient := natOfDigits (whole ++ fraction)
    exponent := e - fraction.length }

/-! ### Writing -/

/-- The digits of a number. -/
def digits (n : Nat) : List Char := Nat.toDigits 10 n

/-- Digits without the zeros at their end, and how many these were. -/
def stripZeros (cs : List Char) : List Char × Nat :=
  let kept := (cs.reverse.dropWhile (· == '0')).reverse
  (kept, cs.length - kept.length)

/-- The same number with no zero at the end of its coefficient. -/
def normalize (d : Decimal) : Decimal :=
  if d.coefficient = 0 then { d with exponent := 0 }
  else
    let (kept, dropped) := stripZeros (digits d.coefficient)
    { d with coefficient := natOfDigits kept, exponent := d.exponent + dropped }

/-- How many places stand before the point: the number is below `10 ^ magnitude`. -/
def magnitude (d : Decimal) : Int := (digits d.coefficient).length + d.exponent

def signText (d : Decimal) : List Char := if d.negative then ['-'] else []

/-- All places of the number, with a point and at least one digit on either side of it. -/
def positional (d : Decimal) : List Char :=
  let ds := digits d.coefficient
  d.signText ++
    if 0 ≤ d.exponent then ds ++ List.replicate d.exponent.toNat '0' ++ ['.', '0']
    else
      let places := d.exponent.natAbs
      if places < ds.length then
        ds.take (ds.length - places) ++ '.' :: ds.drop (ds.length - places)
      else '0' :: '.' :: (List.replicate (places - ds.length) '0' ++ ds)

/-- One digit, the others behind a point if there are any, and the exponent. -/
def scientific (d : Decimal) : List Char :=
  let power := (toString (d.magnitude - 1)).toList
  d.signText ++ match digits d.coefficient with
    | [] => []
    | c :: [] => c :: 'e' :: power
    | c :: cs => c :: '.' :: (cs ++ 'e' :: power)

end Decimal

end ConfigGraft
