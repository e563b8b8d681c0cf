import ConfigGraft.Decimal

/-!
# Floating-point numbers of 64 bits

A finite number is `±m · 2 ^ e` with `m < 2 ^ 53` and `-1074 ≤ e`. Decimal numbers are rounded to
the nearest floating-point number, to the one with an even `m` if two are equally near. Back to
decimal, the fewest digits are chosen that still round to the same number, and of those the
nearest. All arithmetic is exact.
-/

namespace ConfigGraft

/-- A floating-point number of 64 bits. The sign of an undefined number is not kept. -/
inductive Binary64 where
  | nan
  | infinity (negative : Bool)
  | finite (negative : Bool) (m : Nat) (e : Int)
  deriving DecidableEq, Repr

namespace Binary64

/-! ### From decimal -/

/-- The quotient rounded to the nearest whole number, to the even one of two. -/
def roundDiv (num den : Nat) : Nat :=
  let q := num / den
  let r := num % den
  if 2 * r < den then q
  else if den < 2 * r then q + 1
  else if q % 2 = 0 then q else q + 1

/-- The largest `k` with `2 ^ k ≤ num / den`, for positive numbers. -/
def floorLog2 (num den : Nat) : Int :=
  let k : Int := (Nat.log2 num : Int) - Nat.log2 den
  let reached := if 0 ≤ k then den * twoTo k.toNat ≤ num else den ≤ num * twoTo k.natAbs
  if reached then k else k - 1

/-- The floating-point number nearest to a positive quotient. -/
def ofQuotient (negative : Bool) (num den : Nat) : Binary64 :=
  let q := max (floorLog2 num den - 52) (-1074)
  let m :=
    if 0 ≤ q then roundDiv num (den * twoTo q.toNat) else roundDiv (num * twoTo q.natAbs) den
  let (m, q) := if m = twoTo 53 then (twoTo 52, q + 1) else (m, q)
  if 971 < q then .infinity negative else .finite negative m q

/-- The floating-point number nearest to a decimal number. Numbers beyond the range in size are
sorted out first, so that no huge power is formed. -/
def ofDecimal (d : Decimal) : Binary64 :=
  if d.coefficient = 0 then .finite d.negative 0 (-1074)
  else if 310 < d.magnitude then .infinity d.negative
  else if d.magnitude < -330 then .finite d.negative 0 (-1074)
  else if 0 ≤ d.exponent then ofQuotient d.negative (d.coefficient * tenTo d.exponent.toNat) 1
  else ofQuotient d.negative d.coefficient (tenTo d.exponent.natAbs)

def isFinite : Binary64 → Bool
  | .finite .. => true
  | _ => false

/-! ### To decimal -/

/-- The exponent `k` of the power of ten next above `m · 2 ^ e`, for positive `m`. -/
def decimalMagnitude (m : Nat) (e : Int) : Int :=
  let scaled := m * tenTo 350
  let whole := if 0 ≤ e then scaled * twoTo e.toNat else scaled / twoTo e.natAbs
  ((Nat.toDigits 10 whole).length : Int) - 350

/-- The multiple of `10 ^ p` nearest to `m · 2 ^ e`, if one rounds to that number. -/
def onGrid? (m : Nat) (e : Int) (p : Int) : Option Nat :=
  let q := e - 2
  let unit := tenTo p.toNat * twoTo (-q).toNat
  let scale := twoTo q.toNat * tenTo (-p).toNat
  let middle := 4 * m * scale
  let lower := (4 * m - if m = twoTo 52 ∧ e ≠ -1074 then 1 else 2) * scale
  let upper := (4 * m + 2) * scale
  let inside (c : Nat) : Bool :=
    if m % 2 = 0 then lower ≤ c * unit && c * unit ≤ upper
    else lower < c * unit && c * unit < upper
  let below := middle / unit
  let above := below + 1
  match inside below && below != 0, inside above with
  | true, true =>
    let down := middle - below * unit
    let up := above * unit - middle
    if down < up || (down == up && below % 2 == 0) then some below else some above
  | true, false => some below
  | false, true => some above
  | false, false => none

/-- The fewest digits that round to `m · 2 ^ e`, searched from `n` digits on. -/
def shortestFrom (m : Nat) (e k : Int) : Nat → Nat → Decimal
  | _, 0 => { coefficient := m, exponent := 0 }
  | n, tries + 1 =>
    match onGrid? m e (k - n) with
    | some c => { coefficient := c, exponent := k - n }
    | none => shortestFrom m e k (n + 1) tries

/-- The decimal number with the fewest digits that rounds to `m · 2 ^ e`, for positive `m`. -/
def shortest (m : Nat) (e : Int) : Decimal :=
  (shortestFrom m e (decimalMagnitude m e) 1 17).normalize

/-- The sign and the shortest digits of a finite number. -/
def toDecimal (negative : Bool) (m : Nat) (e : Int) : Decimal :=
  if m = 0 then { negative, coefficient := 0, exponent := 0 }
  else { shortest m e with negative }

/-! ### Equality of numbers -/

/-- Whether two numbers are the same when both zeros count as one. -/
def sameNumber : Binary64 → Binary64 → Bool
  | .finite _ 0 _, .finite _ 0 _ => true
  | a, b => a == b

end Binary64

end ConfigGraft
