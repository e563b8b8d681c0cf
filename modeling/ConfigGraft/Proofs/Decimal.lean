import ConfigGraft.Decimal
import Mathlib.Algebra.Order.Field.Power
import Mathlib.Data.List.Induction
import Mathlib.Tactic.Linarith
import Mathlib.Tactic.Ring

/-!
# Decimal numbers that are written and read

A decimal number is written with all its places or with an exponent, and either text is read as a
number of the same sign and size. The digits that are read need not be those of the number: places
in front of the point are filled with zeros, and a zero is put behind it.

## Main results

* `Decimal.digits_natOfDigits` — digits without a needless zero are those of the number they spell;
* `Decimal.le_size`, `Decimal.size_lt` — the magnitude of a number bounds its size;
* `Decimal.normalize_eq_of_size_eq` — a size is written in one way with no zero at the end of the
  coefficient;
* `Decimal.read?_positional`, `Decimal.read?_scientific` — **what is written is read with the same
  size.**
-/

namespace ConfigGraft

/-! ### Powers -/

/-- The power of two that is computed is the power of two. -/
theorem twoTo_eq (k : Nat) : twoTo k = 2 ^ k := rfl

/-- The power of ten that is computed is the power of ten. -/
theorem tenTo_eq (k : Nat) : tenTo k = 10 ^ k := rfl

/-- A power of two is positive. -/
theorem twoTo_pos (k : Nat) : 0 < twoTo k := Nat.pow_pos (by decide)

/-- Powers of two grow with their exponents. -/
theorem twoTo_le_twoTo {j k : Nat} (h : j ≤ k) : twoTo j ≤ twoTo k :=
  Nat.pow_le_pow_right (by decide) h

/-- A power of ten is positive. -/
theorem tenTo_pos (k : Nat) : 0 < tenTo k := Nat.pow_pos (by decide)

/-- A power with an exponent that is not negative is a natural power. -/
theorem zpow_of_nonneg (b : ℚ) {k : Int} (h : 0 ≤ k) : b ^ k = b ^ k.toNat := by
  rw [← zpow_natCast, Int.toNat_of_nonneg h]

/-- A power with a negative exponent is the inverse of a natural power. -/
theorem zpow_of_neg (b : ℚ) {k : Int} (h : k < 0) : b ^ k = (b ^ k.natAbs)⁻¹ := by
  rw [← zpow_natCast, ← zpow_neg]
  congr 1
  omega

namespace Decimal

/-! ### Digits -/

/-- Digits are read from left to right as the library reads them. -/
theorem natOfDigits_eq (cs : List Char) : natOfDigits cs = Nat.ofDigitChars 10 cs 0 := by
  have hstep : (fun (n : Nat) (c : Char) => n * 10 + (c.toNat - 48)) =
      fun n c => 10 * n + (c.toNat - '0'.toNat) := by
    funext n c
    rw [Nat.mul_comm]
    rfl
  rw [natOfDigits, hstep, Nat.ofDigitChars_eq_foldl]

/-- The digits of a number are read as the number. -/
theorem natOfDigits_digits (n : Nat) : natOfDigits (digits n) = n := by
  rw [natOfDigits_eq, digits, Nat.ofDigitChars_ten_toDigits]

/-- Digits that stand before others count as much more as there are others. -/
theorem natOfDigits_append (front back : List Char) :
    natOfDigits (front ++ back) = natOfDigits front * 10 ^ back.length + natOfDigits back := by
  rw [natOfDigits_eq, natOfDigits_eq, natOfDigits_eq, Nat.ofDigitChars_append,
    Nat.ofDigitChars_eq_ofDigitChars_zero, Nat.mul_comm]

/-- Zeros only are read as zero. -/
theorem natOfDigits_zeros (k : Nat) : natOfDigits (List.replicate k '0') = 0 := by
  rw [natOfDigits_eq, Nat.ofDigitChars_replicate_zero, Nat.mul_zero]

/-- The digits of a number are digits. -/
theorem isDigit_of_mem_digits {n : Nat} {c : Char} (h : c ∈ digits n) : c.isDigit = true :=
  Nat.isDigit_of_mem_toDigits (by decide) (by decide) h

/-- Every number has a digit at least. -/
theorem digits_ne_nil (n : Nat) : digits n ≠ [] := Nat.toDigits_ne_nil

/-- The digits of a number by the first one, which is what a reader sees. -/
theorem exists_digits_eq_cons (n : Nat) :
    ∃ c cs, digits n = c :: cs ∧ ∀ x ∈ c :: cs, x.isDigit = true := by
  obtain ⟨c, cs, hdigits⟩ := List.exists_cons_of_ne_nil (digits_ne_nil n)
  exact ⟨c, cs, hdigits, hdigits ▸ fun x => isDigit_of_mem_digits⟩

/-- A number below ten has one digit. -/
theorem digits_of_lt {n : Nat} (h : n < 10) : digits n = [Nat.digitChar n] :=
  Nat.toDigits_of_lt_base h

/-- Any other number has the digits of its tenth, and then its last. -/
theorem digits_of_le {n : Nat} (h : 10 ≤ n) :
    digits n = digits (n / 10) ++ [Nat.digitChar (n % 10)] :=
  Nat.toDigits_of_base_le (by decide) h

/-- No digits begin with a zero but those of zero itself. -/
theorem head?_digits {n : Nat} (h : n ≠ 0) : (digits n).head? ≠ some '0' := by
  induction n using Nat.strong_induction_on with
  | _ n ih =>
    by_cases hn : n < 10
    · rw [digits_of_lt hn]
      simpa using h
    · have hfront := ih (n / 10) (by omega) (by omega)
      obtain ⟨c, cs, hcs⟩ := List.exists_cons_of_ne_nil (digits_ne_nil (n / 10))
      rw [digits_of_le (Nat.le_of_not_lt hn), hcs]
      rwa [hcs] at hfront

/-- A digit is the character of its value. -/
theorem digitChar_of_isDigit {c : Char} (h : c.isDigit = true) :
    c.toNat - 48 < 10 ∧ Nat.digitChar (c.toNat - 48) = c := by
  obtain ⟨hlow, hhigh⟩ : 48 ≤ c.toNat ∧ c.toNat ≤ 57 := by
    simpa [Char.isDigit, UInt32.le_iff_toNat_le] using h
  refine ⟨by omega, Char.toNat_inj.1 ?_⟩
  rw [Nat.toNat_digitChar_of_lt_ten (by omega)]
  omega

/-- **Digits without a needless zero at their start** are those of the number that they spell. -/
theorem digits_natOfDigits {cs : List Char} (hne : cs ≠ []) (hdigits : ∀ c ∈ cs, c.isDigit = true)
    (hhead : cs.head? = some '0' → cs = ['0']) : digits (natOfDigits cs) = cs := by
  induction cs using List.reverseRecOn with
  | nil => exact absurd rfl hne
  | append_singleton front c ih =>
    obtain ⟨hlt, hchar⟩ := digitChar_of_isDigit (hdigits c (by simp))
    have hlast : natOfDigits [c] = c.toNat - 48 := by simp [natOfDigits]
    rw [natOfDigits_append, hlast, List.length_singleton, Nat.pow_one]
    cases front with
    | nil =>
      rw [natOfDigits, List.foldl_nil, Nat.zero_mul, Nat.zero_add, digits_of_lt hlt, hchar]
      rfl
    | cons d front =>
      have hd : d ≠ '0' := by
        rintro rfl
        have hsingle := hhead rfl
        simp at hsingle
      have hfront := ih (List.cons_ne_nil _ _) (fun x hx => hdigits x (List.mem_append_left _ hx))
        fun h => absurd (Option.some.inj h) hd
      have hpos : natOfDigits (d :: front) ≠ 0 := by
        intro hzero
        rw [hzero, digits_of_lt (by decide)] at hfront
        exact hd (List.head_eq_of_cons_eq hfront).symm
      rw [digits_of_le (by omega)]
      rw [show (natOfDigits (d :: front) * 10 + (c.toNat - 48)) / 10 = natOfDigits (d :: front) by
        omega, show (natOfDigits (d :: front) * 10 + (c.toNat - 48)) % 10 = c.toNat - 48 by omega,
        hfront, hchar]

/-- A number is below the power of ten with as many zeros as it has digits. -/
theorem lt_pow_length (n : Nat) : n < 10 ^ (digits n).length :=
  (Nat.length_toDigits_le_iff (by decide) Nat.length_toDigits_pos).1 (Nat.le_refl _)

/-- A number is not below the power of ten with as many digits. -/
theorem pow_length_le {n : Nat} (h : n ≠ 0) : 10 ^ ((digits n).length - 1) ≤ n := by
  by_cases hone : (digits n).length = 1
  · rw [hone]
    exact Nat.one_le_iff_ne_zero.2 h
  · have hpos : 0 < (digits n).length := List.length_pos_iff.2 (digits_ne_nil n)
    have hlong : 0 < (digits n).length - 1 := by omega
    refine Nat.le_of_not_lt fun hlt => ?_
    have hle := (Nat.length_toDigits_le_iff (b := 10) (by decide) hlong).2 hlt
    rw [← digits] at hle
    omega

/-! ### Size -/

/-- The size of a number, whatever its sign. -/
def size (d : Decimal) : ℚ := d.coefficient * (10 : ℚ) ^ d.exponent

variable {d : Decimal}

/-- The size of a number is not below the power of ten by which its magnitude is named. -/
theorem le_size (h : d.coefficient ≠ 0) : (10 : ℚ) ^ (d.magnitude - 1) ≤ d.size := by
  have hten : (10 : ℚ) ≠ 0 := by norm_num
  have hlength : 1 ≤ (digits d.coefficient).length :=
    List.length_pos_iff.2 (digits_ne_nil d.coefficient)
  have hpower : d.magnitude - 1 = (((digits d.coefficient).length - 1 : ℕ) : ℤ) + d.exponent := by
    rw [magnitude]
    omega
  rw [hpower, zpow_add₀ hten, zpow_natCast, size]
  refine mul_le_mul_of_nonneg_right ?_ (zpow_nonneg (by norm_num) _)
  exact_mod_cast pow_length_le h

/-- The size of a number is below the next power of ten. -/
theorem size_lt (d : Decimal) : d.size < (10 : ℚ) ^ d.magnitude := by
  have hten : (10 : ℚ) ≠ 0 := by norm_num
  rw [magnitude, zpow_add₀ hten, zpow_natCast, size]
  refine mul_lt_mul_of_pos_right ?_ (zpow_pos (by norm_num) _)
  exact_mod_cast lt_pow_length d.coefficient

/-- The zeros that are stripped are all that is missing. -/
theorem stripZeros_append (cs : List Char) :
    (stripZeros cs).1 ++ List.replicate (stripZeros cs).2 '0' = cs := by
  have hzeros : cs.reverse.takeWhile (· == '0') =
      List.replicate (cs.reverse.takeWhile (· == '0')).length '0' := by
    refine List.eq_replicate_of_mem fun c hc => ?_
    exact beq_iff_eq.1 (List.all_eq_true.1 List.all_takeWhile c hc)
  have hsplit := congrArg List.reverse (List.takeWhile_append_dropWhile (p := (· == '0'))
    (l := cs.reverse))
  rw [List.reverse_append, List.reverse_reverse, hzeros, List.reverse_replicate] at hsplit
  have hlength := congrArg List.length hsplit
  rw [List.length_append, List.length_replicate] at hlength
  rw [stripZeros]
  simp only
  rw [show cs.length - (cs.reverse.dropWhile (· == '0')).reverse.length =
    (cs.reverse.takeWhile (· == '0')).length by omega]
  exact hsplit

/-- Zeros at the end of the coefficient are as good as a larger exponent. -/
theorem size_normalize (d : Decimal) : d.normalize.size = d.size := by
  rw [normalize]
  split
  · rename_i hzero
    simp [size, hzero]
  · have hten : (10 : ℚ) ≠ 0 := by norm_num
    rcases hstrip : stripZeros (digits d.coefficient) with ⟨kept, dropped⟩
    have hdigits := stripZeros_append (digits d.coefficient)
    rw [hstrip] at hdigits
    have hcoefficient : d.coefficient = natOfDigits kept * 10 ^ dropped := by
      rw [← natOfDigits_digits d.coefficient, ← hdigits, natOfDigits_append, natOfDigits_zeros,
        List.length_replicate, Nat.add_zero]
    simp only [size, hcoefficient]
    rw [zpow_add₀ hten, zpow_natCast]
    push_cast
    ring

/-- What is left of digits without the zeros at their end does not end with one. -/
theorem stripZeros_ne {front : List Char} {c : Char} {cs : List Char}
    (h : (stripZeros cs).1 = front ++ [c]) : c ≠ '0' := by
  rw [stripZeros] at h
  have hreverse := congrArg List.reverse h
  rw [List.reverse_reverse, List.reverse_append, List.reverse_singleton] at hreverse
  have hhead := List.head?_dropWhile_not (· == '0') cs.reverse
  rw [hreverse] at hhead
  rintro rfl
  simp at hhead

/-- Taking zeros off the coefficient leaves the sign alone. -/
theorem negative_normalize (d : Decimal) : d.normalize.negative = d.negative := by
  rw [normalize]
  split <;> rfl

/-- Without its zeros, the coefficient does not end in one. -/
theorem coefficient_normalize_mod (h : d.coefficient ≠ 0) : d.normalize.coefficient % 10 ≠ 0 := by
  have hdigits := stripZeros_append (digits d.coefficient)
  rw [normalize, if_neg h]
  rcases hstrip : stripZeros (digits d.coefficient) with ⟨kept, dropped⟩
  rw [hstrip] at hdigits
  simp only at hdigits ⊢
  obtain rfl | ⟨front, c, hkept⟩ := List.eq_nil_or_concat kept
  · have hzero := congrArg natOfDigits hdigits
    rw [List.nil_append, natOfDigits_zeros, natOfDigits_digits] at hzero
    exact absurd hzero.symm h
  · rw [List.concat_eq_append] at hkept
    subst hkept
    have hmem : c ∈ digits d.coefficient := by
      rw [← hdigits]
      simp
    obtain ⟨hlt, hchar⟩ := digitChar_of_isDigit (isDigit_of_mem_digits hmem)
    have hpos : c.toNat - 48 ≠ 0 := by
      intro hzero
      rw [hzero] at hchar
      exact stripZeros_ne (congrArg Prod.fst hstrip) hchar.symm
    have hspelled : natOfDigits [c] = c.toNat - 48 := by simp [natOfDigits]
    rw [natOfDigits_append, hspelled, List.length_singleton]
    omega

/-- The coefficient of the larger one of two equal exponents has no zero at its end. -/
theorem exponent_le_of_eq {c c' : Nat} {p p' : Int} (hc : c % 10 ≠ 0)
    (h : (c : ℚ) * 10 ^ p = c' * 10 ^ p') : p' ≤ p := by
  refine Int.not_lt.1 fun hlt => hc ?_
  obtain ⟨j, hj⟩ : ∃ j : Nat, p' = p + (j + 1 : ℕ) := ⟨(p' - p - 1).toNat, by omega⟩
  have hpos : (10 : ℚ) ^ p ≠ 0 := zpow_ne_zero _ (by norm_num)
  rw [hj, zpow_add₀ (by norm_num), mul_left_comm, mul_comm (c : ℚ), zpow_natCast] at h
  have hcast : c = c' * 10 ^ (j + 1) := by exact_mod_cast mul_left_cancel₀ hpos h
  rw [hcast, Nat.pow_succ, ← Nat.mul_assoc]
  exact Nat.mul_mod_left _ _

/-- **A size is written in one way** with a coefficient that has no zero at its end. -/
theorem normalize_eq_of_size_eq {d' : Decimal} (hne : d.coefficient ≠ 0)
    (hne' : d'.coefficient ≠ 0) (h : d.size = d'.size) :
    d.normalize.coefficient = d'.normalize.coefficient ∧
      d.normalize.exponent = d'.normalize.exponent := by
  rw [← size_normalize d, ← size_normalize d', size, size] at h
  have hexponent := Int.le_antisymm (exponent_le_of_eq (coefficient_normalize_mod hne') h.symm)
    (exponent_le_of_eq (coefficient_normalize_mod hne) h)
  rw [hexponent] at h
  have hpos : (10 : ℚ) ^ d'.normalize.exponent ≠ 0 := zpow_ne_zero _ (by norm_num)
  exact ⟨by exact_mod_cast mul_right_cancel₀ hpos h, hexponent⟩

/-! ### Reading -/

/-- A digit is no other kind of character. -/
theorem ne_of_isDigit {c d : Char} (hc : c.isDigit = true) (hd : d.isDigit = false) : c ≠ d := by
  rintro rfl
  rw [hc] at hd
  cases hd

/-- The sign that is written before a digit is read. -/
theorem splitSign_of_isDigit (negative : Bool) {c : Char} (h : c.isDigit = true)
    (cs : List Char) :
    splitSign ((if negative then ['-'] else []) ++ c :: cs) = (negative, c :: cs) := by
  have hminus : c ≠ '-' := ne_of_isDigit h rfl
  have hplus : c ≠ '+' := ne_of_isDigit h rfl
  cases negative with
  | true => rfl
  | false =>
    refine splitSign.eq_3 _ (fun rest heq => ?_) fun rest heq => ?_
    · exact hminus (List.head_eq_of_cons_eq heq)
    · exact hplus (List.head_eq_of_cons_eq heq)

/-- A text that does not go on with a digit. -/
def Ends (cs : List Char) : Prop := ∀ c, cs.head? = some c → c.isDigit = false

/-- Digits are taken up to where they end. -/
theorem takeWhile_digits {ds rest : List Char} (hds : ∀ c ∈ ds, c.isDigit = true)
    (hrest : Ends rest) :
    (ds ++ rest).takeWhile Char.isDigit = ds ∧ (ds ++ rest).dropWhile Char.isDigit = rest := by
  rw [List.takeWhile_append_of_pos hds, List.dropWhile_append_of_pos hds]
  cases rest with
  | nil => simp
  | cons c rest => simp [hrest c rfl]

/-- **Digits with a point** among them, behind a sign and before an exponent. -/
theorem read?_point (d : Decimal) {whole fraction rest : List Char} (hne : whole ≠ [])
    (hwhole : ∀ c ∈ whole, c.isDigit = true) (hfraction : ∀ c ∈ fraction, c.isDigit = true)
    (hrest : Ends rest) :
    read? (d.signText ++ (whole ++ '.' :: (fraction ++ rest))) =
      (readExponent? rest).map fun e => {
        negative := d.negative
        coefficient := natOfDigits (whole ++ fraction)
        exponent := e - fraction.length } := by
  obtain ⟨c, more, rfl⟩ := List.exists_cons_of_ne_nil hne
  have hpoint : Ends ('.' :: (fraction ++ rest)) := by
    rintro c ⟨⟩
    rfl
  obtain ⟨htake, hdrop⟩ := takeWhile_digits hwhole hpoint
  obtain ⟨htake', hdrop'⟩ := takeWhile_digits hfraction hrest
  rw [read?, signText, List.cons_append,
    splitSign_of_isDigit d.negative (hwhole c List.mem_cons_self), ← List.cons_append]
  simp only [htake, hdrop, htake', hdrop', List.cons_ne_nil, false_and, if_false]

/-- Digits without a point, behind a sign and before an exponent. -/
theorem read?_whole (d : Decimal) {whole rest : List Char} (hne : whole ≠ [])
    (hwhole : ∀ c ∈ whole, c.isDigit = true) (hrest : Ends rest) (hpoint : rest.head? ≠ some '.') :
    read? (d.signText ++ (whole ++ rest)) = (readExponent? rest).map fun e =>
      { negative := d.negative, coefficient := natOfDigits whole, exponent := e } := by
  obtain ⟨c, more, rfl⟩ := List.exists_cons_of_ne_nil hne
  obtain ⟨htake, hdrop⟩ := takeWhile_digits hwhole hrest
  rw [read?, signText, List.cons_append,
    splitSign_of_isDigit d.negative (hwhole c List.mem_cons_self), ← List.cons_append]
  simp only [htake, hdrop]
  split
  · exact absurd rfl hpoint
  · simp only [List.cons_ne_nil, false_and, if_false, List.append_nil, List.length_nil,
      Nat.cast_zero, sub_zero]

/-! ### What is written -/

/-- The places of a number: digits before the point and digits behind it. -/
theorem exists_positional (d : Decimal) :
    ∃ whole fraction, d.positional = d.signText ++ (whole ++ '.' :: fraction) ∧ whole ≠ [] ∧
      (∀ c ∈ whole, c.isDigit = true) ∧ (∀ c ∈ fraction, c.isDigit = true) ∧
      (natOfDigits (whole ++ fraction) : ℚ) * 10 ^ (-(fraction.length : Int)) = d.size := by
  have hds : ∀ c ∈ digits d.coefficient, c.isDigit = true := fun c => isDigit_of_mem_digits
  have hzeros (k : Nat) : ∀ c ∈ List.replicate k '0', c.isDigit = true := by
    intro c hc
    rw [List.eq_of_mem_replicate hc]
    rfl
  rw [positional, size]
  by_cases hexponent : 0 ≤ d.exponent
  · -- Zeros in front of the point, and one behind it.
    refine ⟨digits d.coefficient ++ List.replicate d.exponent.toNat '0', ['0'], ?_,
      List.append_ne_nil_of_left_ne_nil (digits_ne_nil _) _,
      List.forall_mem_append.2 ⟨hds, hzeros d.exponent.toNat⟩, hzeros 1, ?_⟩
    · rw [if_pos hexponent]
    · have hzero : natOfDigits ['0'] = 0 := rfl
      rw [natOfDigits_append, natOfDigits_append, natOfDigits_digits, natOfDigits_zeros, hzero,
        List.length_replicate, zpow_of_nonneg 10 hexponent]
      push_cast
      rw [List.length_singleton, zpow_neg, Nat.cast_one, zpow_one, add_zero, add_zero, pow_one,
        mul_inv_cancel_right₀ (by norm_num)]
  · rw [if_neg hexponent]
    by_cases hplaces : d.exponent.natAbs < (digits d.coefficient).length
    · -- The point stands among the digits.
      rw [if_pos hplaces]
      refine ⟨_, _, rfl, ?_, fun c hc => hds c (List.mem_of_mem_take hc),
        fun c hc => hds c (List.mem_of_mem_drop hc), ?_⟩
      · rw [ne_eq, List.take_eq_nil_iff, not_or]
        exact ⟨by omega, digits_ne_nil _⟩
      · rw [List.take_append_drop, natOfDigits_digits, List.length_drop]
        congr 2
        omega
    · -- Zeros stand behind the point.
      rw [if_neg hplaces]
      refine ⟨['0'], _, rfl, List.cons_ne_nil _ _, hzeros 1,
        List.forall_mem_append.2 ⟨hzeros _, hds⟩, ?_⟩
      have hzero : natOfDigits ['0'] = 0 := rfl
      rw [← List.append_assoc, natOfDigits_append, natOfDigits_append, natOfDigits_zeros,
        natOfDigits_digits, List.length_append, List.length_replicate, hzero, Nat.zero_mul,
        Nat.zero_add, Nat.zero_mul, Nat.zero_add]
      congr 2
      omega

/-- **All places of a number are read** with its sign and size. -/
theorem read?_positional (d : Decimal) :
    ∃ d', read? d.positional = some d' ∧ d'.negative = d.negative ∧ d'.size = d.size := by
  obtain ⟨whole, fraction, htext, hne, hwhole, hfraction, hsize⟩ := exists_positional d
  have hends : Ends [] := nofun
  have hread := read?_point d hne hwhole hfraction hends
  rw [List.append_nil, ← htext, readExponent?, Option.map_some] at hread
  refine ⟨_, hread, rfl, ?_⟩
  rw [← hsize, size, zero_sub]

/-- A whole number is written as a sign, if it is negative, and its digits. -/
theorem toList_toString (n : Int) :
    (toString n).toList = (if n < 0 then ['-'] else []) ++ digits n.natAbs := by
  cases n with
  | ofNat k => exact Nat.toList_repr
  | negSucc k =>
    have hsign : (toString (Int.negSucc k)).toList = "-".toList ++ k.succ.repr.toList :=
      String.toList_append
    rw [hsign, Nat.toList_repr, if_pos (Int.negSucc_lt_zero k)]
    rfl

/-- An exponent that is written is read. -/
theorem readExponent?_toString (n : Int) :
    readExponent? ('e' :: (toString n).toList) = some n := by
  obtain ⟨c, cs, hdigits, hall⟩ := exists_digits_eq_cons n.natAbs
  have hsign := splitSign_of_isDigit (decide (n < 0)) (hall c List.mem_cons_self) cs
  simp only [decide_eq_true_eq] at hsign
  rw [readExponent?, if_pos (.inl rfl), toList_toString, hdigits, hsign]
  simp only
  rw [if_pos ⟨List.cons_ne_nil _ _, List.all_eq_true.2 hall⟩, ← hdigits, natOfDigits_digits]
  simp only [decide_eq_true_eq]
  split <;> simp only [Option.some.injEq] <;> omega

/-- **A number with an exponent is read** with its sign and size. -/
theorem read?_scientific (d : Decimal) :
    ∃ d', read? d.scientific = some d' ∧ d'.negative = d.negative ∧ d'.size = d.size := by
  obtain ⟨power, hpower, hread⟩ : ∃ power, (toString (d.magnitude - 1)).toList = power ∧
      readExponent? ('e' :: power) = some (d.magnitude - 1) :=
    ⟨_, rfl, readExponent?_toString _⟩
  have hends : Ends ('e' :: power) := by
    rintro c ⟨⟩
    rfl
  have hds : ∀ c ∈ digits d.coefficient, c.isDigit = true := fun c => isDigit_of_mem_digits
  have hsame := natOfDigits_digits d.coefficient
  rw [magnitude] at hread
  rw [scientific]
  simp only [hpower]
  match hdigits : digits d.coefficient with
  | [] => exact absurd hdigits (digits_ne_nil _)
  | [c] =>
    rw [hdigits] at hds hsame hread
    have hwhole := read?_whole d (List.cons_ne_nil c []) hds hends nofun
    rw [hread, Option.map_some] at hwhole
    refine ⟨_, hwhole, rfl, ?_⟩
    rw [size, size, hsame]
    simp
  | c :: c' :: cs =>
    rw [hdigits] at hds hsame hread
    obtain ⟨hc, hcs⟩ := List.forall_mem_cons.1 hds
    have hpoint := read?_point d (List.cons_ne_nil c []) (List.forall_mem_singleton.2 hc) hcs hends
    rw [hread, Option.map_some] at hpoint
    refine ⟨_, hpoint, rfl, ?_⟩
    rw [size, size, List.singleton_append, hsame]
    congr 2
    simp only [List.length_cons]
    omega

/-- Digits with a point or an exponent behind them, and a sign before them if it is a minus sign. -/
def Marked (negative : Bool) (cs : List Char) : Prop :=
  ∃ c more mark rest, cs = (if negative then ['-'] else []) ++ c :: (more ++ mark :: rest) ∧
    (∀ x ∈ c :: more, x.isDigit = true) ∧ (mark = '.' ∨ mark = 'e')

/-- A number that is written out has digits and a point. -/
theorem marked_positional (d : Decimal) : Marked d.negative d.positional := by
  obtain ⟨whole, fraction, htext, hne, hwhole, -⟩ := exists_positional d
  obtain ⟨c, more, rfl⟩ := List.exists_cons_of_ne_nil hne
  exact ⟨c, more, '.', fraction, htext, hwhole, .inl rfl⟩

/-- A number with an exponent has digits and a point or the sign of the exponent. -/
theorem marked_scientific (d : Decimal) : Marked d.negative d.scientific := by
  have hds : ∀ c ∈ digits d.coefficient, c.isDigit = true := fun c => isDigit_of_mem_digits
  rw [scientific]
  match hdigits : digits d.coefficient with
  | [] => exact absurd hdigits (digits_ne_nil _)
  | [c] => exact ⟨c, [], 'e', _, rfl, hdigits ▸ hds, .inr rfl⟩
  | c :: c' :: cs =>
    rw [hdigits] at hds
    exact ⟨c, [], '.', _, rfl, fun x hx => hds x (List.mem_of_mem_take (i := 1) hx), .inl rfl⟩

end Decimal

end ConfigGraft
