import ConfigGraft.Proofs.Binary64.Shortest

/-!
# Decimal numbers of few digits

Decimal numbers of up to fifteen digits are further apart than the ends of an interval, unless they
are so small that a floating-point number has fewer binary places for them. So no two of them are
rounded to the same floating-point number, and the one that was rounded is the one that is chosen
when the number is written.

## Main results

* `Binary64.eq_of_rounds` — one multiple of a large enough power of ten at most lies in an interval;
* `Binary64.toDecimal_eq_normalize` — **a decimal number of up to fifteen digits is chosen for the
  number that it is rounded to.**
-/

namespace ConfigGraft.Binary64

variable {m a b c : Nat} {e p : Int}

/-- The ends of an interval are no further apart than the numbers. -/
theorem above_sub_below_le (m : Nat) (e : Int) : above m e - below m e ≤ 2 ^ e := by
  have hpos : (0 : ℚ) < 2 ^ (e - 2) := by positivity
  rw [above, below, two_zpow_eq e]
  split <;> linarith

/-- The lower end of an interval is not below the one that it has away from powers of two. -/
theorem le_below (m : Nat) (e : Int) : (m - 1 / 2) * (2 : ℚ) ^ e ≤ below m e := by
  have hpos : (0 : ℚ) < 2 ^ (e - 2) := by positivity
  rw [below, two_zpow_eq e]
  split <;> linarith

/-- **One multiple at most** of a large enough power of ten lies in an interval. -/
theorem eq_of_rounds (hunit : (2 : ℚ) ^ e < 10 ^ p) (ha : Rounds m e (a * 10 ^ p))
    (hb : Rounds m e (b * 10 ^ p)) : a = b := by
  have hwidth := above_sub_below_le m e
  have hpos : (0 : ℚ) < 10 ^ p := zpow_pos (by norm_num) _
  have hclose {x y : Nat} (hx : Rounds m e (x * 10 ^ p)) (hy : Rounds m e (y * 10 ^ p)) :
      x ≤ y := by
    have hlt : (x : ℚ) * 10 ^ p < (y + 1) * 10 ^ p := by linarith [hx.2.1, hy.1]
    have hlt' := lt_of_mul_lt_mul_right hlt hpos.le
    exact Nat.le_of_lt_succ (by exact_mod_cast hlt')
  exact Nat.le_antisymm (hclose ha hb) (hclose hb ha)

/-- The last place of few digits counts for more than the unit of the number. -/
theorem two_zpow_lt_of_rounds (hm : 2 ^ 52 ≤ m) (hc : c < 10 ^ 15) (h : Rounds m e (c * 10 ^ p)) :
    (2 : ℚ) ^ e < 10 ^ p := by
  have hpos : (0 : ℚ) < 10 ^ p := zpow_pos (by norm_num) _
  have hunit : (0 : ℚ) < 2 ^ e := by positivity
  have hm' : (2 : ℚ) ^ 52 ≤ m := by exact_mod_cast hm
  have hc' : (c : ℚ) < 10 ^ 15 := by exact_mod_cast hc
  have hscaled : (10 : ℚ) ^ 15 * 2 ^ e < 10 ^ 15 * 10 ^ p := by
    calc (10 : ℚ) ^ 15 * 2 ^ e ≤ (m - 1 / 2) * 2 ^ e :=
          mul_le_mul_of_nonneg_right (by linarith) hunit.le
      _ ≤ c * 10 ^ p := (le_below m e).trans h.1
      _ < 10 ^ 15 * 10 ^ p := mul_lt_mul_of_pos_right hc' hpos
  exact lt_of_mul_lt_mul_left hscaled (by norm_num)

/-- A multiple of a power of ten is one of every smaller power. -/
theorem multiple_eq (c : Nat) {p q : Int} (h : q ≤ p) :
    ((c * 10 ^ (p - q).toNat : ℕ) : ℚ) * 10 ^ q = c * 10 ^ p := by
  have hpower : (10 : ℚ) ^ p = 10 ^ (p - q).toNat * 10 ^ q := by
    rw [← zpow_natCast, ← zpow_add₀ (by norm_num)]
    congr 1
    omega
  rw [hpower]
  push_cast
  ring

/-- **What is chosen** is the decimal number of few digits that lies in the interval. -/
theorem shortest_eq_normalize {d : Decimal} (hregular : Regular m e) (hm : 2 ^ 52 ≤ m)
    (hne : d.coefficient ≠ 0) (hfew : d.normalize.coefficient < 10 ^ 15)
    (h : Rounds m e d.size) :
    (shortest m e).coefficient = d.normalize.coefficient ∧
      (shortest m e).exponent = d.normalize.exponent := by
  have hpos : 0 < m := Nat.lt_of_lt_of_le (by norm_num) hm
  obtain ⟨hlow, hhigh⟩ := decimalMagnitude_spec hpos hregular.le_exponent
  have hnormal := Decimal.coefficient_normalize_mod hne
  have hrounds : Rounds m e (d.normalize.coefficient * 10 ^ d.normalize.exponent) := by
    rw [← Decimal.size_normalize] at h
    exact h
  have hunit := two_zpow_lt_of_rounds hm hfew hrounds
  have hunit' : (2 : ℚ) ^ e < 10 ^ (decimalMagnitude m e - 1) := by
    have hm' : (2 : ℚ) ^ 52 ≤ m := by exact_mod_cast hm
    have hten := zpow_one_add₀ (a := (10 : ℚ)) (by norm_num) (decimalMagnitude m e - 1)
    rw [add_sub_cancel] at hten
    have hmul := mul_le_mul_of_nonneg_right hm' (zpow_nonneg (zero_le_two (α := ℚ)) e)
    linarith [zpow_pos (zero_lt_two (α := ℚ)) e]
  -- Both the number and what is chosen are multiples of one power of ten.
  obtain ⟨p, hp, hp', hdense⟩ : ∃ p, p ≤ d.normalize.exponent ∧ p ≤ decimalMagnitude m e - 1 ∧
      (2 : ℚ) ^ e < 10 ^ p := by
    obtain h | h := Int.le_total d.normalize.exponent (decimalMagnitude m e - 1)
    · exact ⟨_, le_rfl, h, hunit⟩
    · exact ⟨_, h, le_rfl, hunit'⟩
  obtain ⟨l, hl⟩ : ∃ l : Nat, p = decimalMagnitude m e - l :=
    ⟨(decimalMagnitude m e - p).toNat, by omega⟩
  have hl17 : l ≤ 17 := by
    have hm' : (m : ℚ) < 10 ^ 16 := by
      have hlt : (m : ℚ) < 2 ^ 53 := by exact_mod_cast hregular.lt
      linarith
    have hlt : (10 : ℚ) ^ (decimalMagnitude m e - 1) < 10 ^ (16 + p) := by
      calc (10 : ℚ) ^ (decimalMagnitude m e - 1) ≤ m * 2 ^ e := hlow
        _ ≤ 10 ^ 16 * 2 ^ e := mul_le_mul_of_nonneg_right hm'.le (by positivity)
        _ < 10 ^ 16 * 10 ^ p := mul_lt_mul_of_pos_left hdense (by norm_num)
        _ = 10 ^ (16 + p) := by
          rw [zpow_add₀ (by norm_num)]
          norm_num
    have hexponents := (zpow_lt_zpow_iff_right₀ (by norm_num)).1 hlt
    omega
  have hmultiple := multiple_eq d.normalize.coefficient hp
  have hgrid : onGrid? m e (decimalMagnitude m e - l) ≠ none := by
    rw [← hl]
    refine onGrid?_ne_none_of_rounds hpos (Nat.mul_ne_zero ?_ (Nat.pow_pos (by decide)).ne')
      (hmultiple ▸ hrounds)
    rintro hzero
    exact hnormal (by rw [hzero])
  obtain ⟨j, c, hj, hc, hfrom⟩ := shortestFrom_spec hgrid 17 1 (by omega) (by omega)
  obtain ⟨hcne, hcrounds⟩ := rounds_of_onGrid? hpos hc
  have hcmultiple := multiple_eq c (show p ≤ decimalMagnitude m e - j by omega)
  have hsame := eq_of_rounds hdense (hcmultiple ▸ hcrounds) (hmultiple ▸ hrounds)
  rw [hsame, hmultiple] at hcmultiple
  rw [shortest, hfrom]
  refine Decimal.normalize_eq_of_size_eq hcne hne ?_
  rw [← Decimal.size_normalize d]
  exact hcmultiple.symm

/-- **A decimal number of up to fifteen digits** is chosen for the number that it is rounded to. -/
theorem toDecimal_eq_normalize {d : Decimal} {negative : Bool}
    (hfew : d.normalize.coefficient < 10 ^ 15) (hlarge : -306 ≤ d.magnitude)
    (h : ofDecimal d = .finite negative m e) : toDecimal negative m e = d.normalize := by
  obtain ⟨hsign, hregular, hrounds⟩ := rounds_of_ofDecimal h
  by_cases hne : d.coefficient = 0
  · rw [ofDecimal, if_pos hne] at h
    cases h
    rw [toDecimal, if_pos rfl, Decimal.normalize, if_pos hne, hne]
  · have hin := hrounds hne (by omega)
    have hm : 2 ^ 52 ≤ m := by
      refine Nat.not_lt.1 fun hsmall => ?_
      obtain rfl := hregular.least.resolve_left (Nat.not_le.2 hsmall)
      have hsmall' : (m : ℚ) + 1 ≤ 2 ^ 52 := by exact_mod_cast hsmall
      have hmagnitude : (10 : ℚ) ^ (-307 : Int) ≤ 10 ^ (d.magnitude - 1) :=
        zpow_le_zpow_right₀ (by norm_num) (by omega)
      have habove : above m (-1074) < 2 ^ (-1022 : Int) := by
        have hpower : (2 : ℚ) ^ (-1022 : Int) = 2 ^ 54 * 2 ^ (-1074 - 2 : Int) := by
          rw [← zpow_natCast, ← zpow_add₀ two_ne_zero]
          rfl
        rw [above, hpower]
        exact mul_lt_mul_of_pos_right (by linarith) (by positivity)
      have hpower : (2 : ℚ) ^ (-1022 : Int) ≤ 10 ^ (-307 : Int) := by
        have hpow : 10 ^ 307 ≤ 2 ^ 1022 := by decide +kernel
        rw [zpow_neg, zpow_neg]
        refine inv_anti₀ (by positivity) ?_
        exact_mod_cast hpow
      linarith [Decimal.le_size hne, hin.2.1]
    have hpos : m ≠ 0 := (Nat.lt_of_lt_of_le (by norm_num) hm).ne'
    obtain ⟨hcoefficient, hexponent⟩ := shortest_eq_normalize hregular hm hne hfew hin
    rw [toDecimal, if_neg hpos]
    simp only [hcoefficient, hexponent]
    rw [hsign, ← Decimal.negative_normalize]

end ConfigGraft.Binary64
