import ConfigGraft.Binary64
import ConfigGraft.Proofs.Decimal

/-!
# Rounding to the nearest floating-point number

A floating-point number `m · 2 ^ e` stands for all sizes that are nearer to it than to any other
one. These lie between the middles on either side of it, and the middles themselves belong to it if
`m` is even. Below a power of two the numbers are twice as dense, so there the middle on the lower
side is twice as near.

Rounding scales a quotient by a power of two, so that the nearest whole number has 53 binary places,
unless the number is so small that it has fewer. Just below a power of two the scale is that of the
numbers below, and rounding carries.

## Main results

* `Binary64.floorLog2_spec` — the power of two below a quotient;
* `Binary64.nearest_roundDiv` — the whole number nearest to a quotient;
* `Binary64.rounds_of_ofDecimal` — what a decimal number is rounded to has the form of the format,
  and the decimal number lies in its interval;
* `Binary64.ofDecimal_of_rounds` — **a decimal number is rounded to the floating-point number whose
  interval it lies in.**
-/

namespace ConfigGraft

namespace Binary64

/-! ### Intervals -/

variable {num den m n : Nat} {e : Int} {x : ℚ}

/-- A size between two ends, which count themselves only if `m` is even. -/
def Within (m : Nat) (low high x : ℚ) : Prop :=
  low ≤ x ∧ x ≤ high ∧ (m % 2 = 1 → low < x ∧ x < high)

/-- `m` is the whole number nearest to `x`, and the even one of two. -/
def Nearest (m : Nat) (x : ℚ) : Prop := Within m (m - 1 / 2) (m + 1 / 2) x

/-- The form of a finite number: no smaller exponent would do. -/
structure Regular (m : Nat) (e : Int) : Prop where
  lt : m < 2 ^ 53
  le_exponent : -1074 ≤ e
  exponent_le : e ≤ 971
  least : 2 ^ 52 ≤ m ∨ e = -1074

/-- A power of two, below which the numbers are denser. -/
def IsEdge (m : Nat) (e : Int) : Prop := m = 2 ^ 52 ∧ e ≠ -1074

instance (m : Nat) (e : Int) : Decidable (IsEdge m e) := inferInstanceAs (Decidable (_ ∧ _))

/-- The middle between `m · 2 ^ e` and the number below it. -/
def below (m : Nat) (e : Int) : ℚ := (4 * m - if IsEdge m e then 1 else 2) * 2 ^ (e - 2)

/-- The middle between `m · 2 ^ e` and the number above it. -/
def above (m : Nat) (e : Int) : ℚ := (4 * m + 2) * 2 ^ (e - 2)

/-- The sizes that are nearest to `m · 2 ^ e`. -/
def Rounds (m : Nat) (e : Int) (x : ℚ) : Prop := Within m (below m e) (above m e) x

/-- A power of two as a multiple of a quarter of the unit. -/
theorem two_zpow_of_eq {k : Int} (hk : k = n + (e - 2)) : (2 : ℚ) ^ k = 2 ^ n * 2 ^ (e - 2) := by
  rw [hk, zpow_add₀ two_ne_zero, zpow_natCast]

/-- A unit is four quarters of a unit. -/
theorem two_zpow_eq (e : Int) : (2 : ℚ) ^ e = 4 * 2 ^ (e - 2) := by
  rw [two_zpow_of_eq (e := e) (n := 2) (by omega)]
  norm_num

/-- The upper end is half a unit above the number. -/
theorem above_eq (m : Nat) (e : Int) : above m e = (m + 1 / 2) * 2 ^ e := by
  rw [above, two_zpow_eq e]
  ring

/-- The lower end is half a unit below the number, unless that is the least coefficient of its
scale. -/
theorem below_eq (h : ¬ IsEdge m e) : below m e = (m - 1 / 2) * 2 ^ e := by
  rw [below, if_neg h, two_zpow_eq e]
  ring

/-- To be nearest to a quotient by the unit is to have the size within half a unit on both sides. -/
theorem nearest_div_iff :
    Nearest m (x / 2 ^ e) ↔ Within m ((m - 1 / 2) * 2 ^ e) ((m + 1 / 2) * 2 ^ e) x := by
  have hunit : (0 : ℚ) < 2 ^ e := by positivity
  rw [Nearest, Within, Within, le_div_iff₀ hunit, div_le_iff₀ hunit, lt_div_iff₀ hunit,
    div_lt_iff₀ hunit]

/-- **Rounding to a number** is rounding to its coefficient, unless the size is just below a power
of two. -/
theorem rounds_iff_nearest (hx : IsEdge m e → (2 : ℚ) ^ (e + 52) ≤ x) :
    Rounds m e x ↔ Nearest m (x / 2 ^ e) := by
  by_cases hedge : IsEdge m e
  · -- On the upper side of a power of two only the upper end matters.
    have hle := hx hedge
    rw [two_zpow_of_eq (e := e) (n := 54) (by omega)] at hle
    have hquarter : (0 : ℚ) < 2 ^ (e - 2) := by positivity
    rw [nearest_div_iff, Rounds, Within, Within, above_eq, below, if_pos hedge, two_zpow_eq e,
      hedge.1]
    push_cast
    exact ⟨fun h => ⟨by linarith, h.2.1, fun hodd => hodd.elim⟩,
      fun h => ⟨by linarith, h.2.1, fun hodd => hodd.elim⟩⟩
  · rw [nearest_div_iff, Rounds, above_eq, below_eq hedge]

/-- Just below a power of two rounding to it is rounding to twice its coefficient. -/
theorem rounds_iff_nearest_of_lt (hedge : IsEdge m e) (hx : x < 2 ^ (e + 52)) :
    Rounds m e x ↔ Nearest (2 ^ 53) (x / 2 ^ (e - 1)) := by
  have hquarter : (0 : ℚ) < 2 ^ (e - 2) := by positivity
  rw [two_zpow_of_eq (e := e) (n := 54) (by omega)] at hx
  rw [nearest_div_iff, Rounds, Within, Within, above, below, if_pos hedge,
    two_zpow_of_eq (e := e) (n := 1) (k := e - 1) (by omega), hedge.1]
  push_cast
  exact ⟨fun h => ⟨by linarith, by linarith, fun hodd => hodd.elim⟩,
    fun h => ⟨by linarith, by linarith, fun hodd => hodd.elim⟩⟩

/-- The interval of a number does not reach beyond its binary places. -/
theorem Rounds.lt (h : Rounds m e x) (hm : m < 2 ^ 53) : x < 2 ^ (e + 53) := by
  have hquarter : (0 : ℚ) < 2 ^ (e - 2) := by positivity
  have hm' : (m : ℚ) + 1 ≤ 2 ^ 53 := by exact_mod_cast hm
  rw [two_zpow_of_eq (e := e) (n := 55) (by omega)]
  refine lt_of_le_of_lt h.2.1 ?_
  rw [above]
  exact mul_lt_mul_of_pos_right (by linarith) hquarter

/-- Away from the least scale, what rounds to a number is not smaller than the least number of its
scale. -/
theorem Rounds.le (h : Rounds m e x) (hm : 2 ^ 52 ≤ m) (hne : e ≠ -1074)
    (hx : IsEdge m e → (2 : ℚ) ^ (e + 52) ≤ x) : (2 : ℚ) ^ (e + 52) ≤ x := by
  by_cases hedge : IsEdge m e
  · exact hx hedge
  · have hquarter : (0 : ℚ) < 2 ^ (e - 2) := by positivity
    have hlt : 2 ^ 52 < m := lt_of_le_of_ne hm fun heq => hedge ⟨heq.symm, hne⟩
    have hm' : (2 : ℚ) ^ 52 + 1 ≤ m := by exact_mod_cast hlt
    rw [two_zpow_of_eq (e := e) (n := 54) (by omega)]
    refine le_trans ?_ h.1
    rw [below, if_neg hedge]
    exact mul_le_mul_of_nonneg_right (by linarith) hquarter.le

/-! ### Quotients to whole numbers -/

/-- **No two whole numbers** are nearest to a size. -/
theorem Nearest.unique (hm : Nearest m x) (hn : Nearest n x) : m = n := by
  obtain ⟨hmlow, hmhigh, hmodd⟩ := hm
  obtain ⟨hnlow, hnhigh, hnodd⟩ := hn
  -- Of two neighbours one is odd, so that their middle belongs to the other one alone.
  obtain hlt | heq | hlt := Nat.lt_trichotomy m n
  · have hle : (m : ℚ) + 1 ≤ n := by exact_mod_cast hlt
    have hnext : (m : ℚ) + 1 = n := by linarith
    obtain hm | hm : m % 2 = 1 ∨ n % 2 = 1 := by
      have : m + 1 = n := by exact_mod_cast hnext
      omega
    · linarith [(hmodd hm).2]
    · linarith [(hnodd hm).1]
  · exact heq
  · have hle : (n : ℚ) + 1 ≤ m := by exact_mod_cast hlt
    have hnext : (n : ℚ) + 1 = m := by linarith
    obtain hm | hm : m % 2 = 1 ∨ n % 2 = 1 := by
      have : n + 1 = m := by exact_mod_cast hnext
      omega
    · linarith [(hmodd hm).1]
    · linarith [(hnodd hm).2]

/-- **A quotient is rounded** to the whole number nearest to it. -/
theorem nearest_roundDiv (num : Nat) (hden : 0 < den) :
    Nearest (roundDiv num den) ((num : ℚ) / den) := by
  have hpos : (0 : ℚ) < den := by exact_mod_cast hden
  have hsplit : ((num / den : ℕ) : ℚ) * den + (num % den : ℕ) = num := by
    exact_mod_cast Nat.div_add_mod' num den
  have hrest : ((num % den : ℕ) : ℚ) < den := by exact_mod_cast Nat.mod_lt num hden
  have hrest' : (0 : ℚ) ≤ (num % den : ℕ) := Nat.cast_nonneg _
  rw [Nearest, Within, le_div_iff₀ hpos, div_le_iff₀ hpos, lt_div_iff₀ hpos, div_lt_iff₀ hpos,
    roundDiv]
  generalize num / den = q at hsplit ⊢
  generalize num % den = r at hsplit hrest hrest' ⊢
  split
  · rename_i hlt
    have hlt : (2 * r : ℚ) < den := by exact_mod_cast hlt
    exact ⟨by linarith, by linarith, fun _ => ⟨by linarith, by linarith⟩⟩
  split
  · rename_i hgt
    have hgt : (den : ℚ) < 2 * r := by exact_mod_cast hgt
    push_cast
    exact ⟨by linarith, by linarith, fun _ => ⟨by linarith, by linarith⟩⟩
  · have htie : (2 * r : ℚ) = den := by
      have : 2 * r = den := by omega
      exact_mod_cast this
    split
    · refine ⟨by linarith, by linarith, fun hodd => ?_⟩
      omega
    · push_cast
      refine ⟨by linarith, by linarith, fun hodd => ?_⟩
      omega

/-! ### The power of two below a quotient -/

/-- The binary logarithm of a whole number, rounded down, between the powers of two around the
number. -/
theorem log2_spec {n : Nat} (h : 0 < n) :
    (2 : ℚ) ^ (Nat.log2 n : Int) ≤ n ∧ (n : ℚ) < 2 ^ ((Nat.log2 n : Int) + 1) := by
  have hne : n ≠ 0 := Nat.ne_of_gt h
  have hlow := Nat.log2_self_le hne
  have hhigh := Nat.lt_log2_self (n := n)
  rw [← Nat.cast_succ, zpow_natCast, zpow_natCast]
  exact ⟨by exact_mod_cast hlow, by exact_mod_cast hhigh⟩

/-- The test for a power of two compares it with the quotient. -/
theorem reached_iff (num : Nat) (hden : 0 < den) (k : Int) :
    (if 0 ≤ k then den * twoTo k.toNat ≤ num else den ≤ num * twoTo k.natAbs) ↔
      (2 : ℚ) ^ k ≤ (num : ℚ) / den := by
  have hpos : (0 : ℚ) < den := by exact_mod_cast hden
  rw [twoTo_eq, twoTo_eq, le_div_iff₀ hpos]
  by_cases hk : 0 ≤ k
  · rw [if_pos hk, zpow_of_nonneg 2 hk, mul_comm]
    exact_mod_cast Iff.rfl
  · have htwo : (0 : ℚ) < 2 ^ k.natAbs := by positivity
    rw [if_neg hk, zpow_of_neg 2 (Int.not_le.1 hk), inv_mul_le_iff₀ htwo, mul_comm _ (num : ℚ)]
    exact_mod_cast Iff.rfl

/-- The binary logarithm of a quotient, rounded down, between the powers of two around the quotient.
-/
theorem floorLog2_spec (hnum : 0 < num) (hden : 0 < den) :
    (2 : ℚ) ^ floorLog2 num den ≤ (num : ℚ) / den ∧
      (num : ℚ) / den < 2 ^ (floorLog2 num den + 1) := by
  have htwo : (2 : ℚ) ≠ 0 := by norm_num
  have hpos : (0 : ℚ) < den := by exact_mod_cast hden
  obtain ⟨hnumlow, hnumhigh⟩ := log2_spec hnum
  obtain ⟨hdenlow, hdenhigh⟩ := log2_spec hden
  have hreached := reached_iff num hden ((Nat.log2 num : Int) - Nat.log2 den)
  -- The difference of the places is right, or one too large.
  have hhigh : (num : ℚ) / den < 2 ^ ((Nat.log2 num : Int) - Nat.log2 den + 1) := by
    rw [div_lt_iff₀ hpos]
    calc (num : ℚ) < 2 ^ ((Nat.log2 num : Int) + 1) := hnumhigh
      _ = 2 ^ ((Nat.log2 num : Int) - Nat.log2 den + 1) * 2 ^ (Nat.log2 den : Int) := by
        rw [← zpow_add₀ htwo]
        congr 1
        ring
      _ ≤ 2 ^ ((Nat.log2 num : Int) - Nat.log2 den + 1) * den :=
        mul_le_mul_of_nonneg_left hdenlow (by positivity)
  have hlow : (2 : ℚ) ^ ((Nat.log2 num : Int) - Nat.log2 den - 1) ≤ (num : ℚ) / den := by
    rw [le_div_iff₀ hpos]
    calc (2 : ℚ) ^ ((Nat.log2 num : Int) - Nat.log2 den - 1) * den
      _ ≤ 2 ^ ((Nat.log2 num : Int) - Nat.log2 den - 1) * 2 ^ ((Nat.log2 den : Int) + 1) :=
        mul_le_mul_of_nonneg_left hdenhigh.le (by positivity)
      _ = 2 ^ (Nat.log2 num : Int) := by
        rw [← zpow_add₀ htwo]
        congr 1
        ring
      _ ≤ num := hnumlow
  rw [floorLog2]
  by_cases hk : (2 : ℚ) ^ ((Nat.log2 num : Int) - Nat.log2 den) ≤ (num : ℚ) / den
  · rw [if_pos (hreached.2 hk)]
    exact ⟨hk, hhigh⟩
  · rw [if_neg (mt hreached.1 hk), sub_add_cancel]
    exact ⟨hlow, lt_of_not_ge hk⟩

/-- A power of two that is not above a quotient has an exponent that is not above its logarithm. -/
theorem le_floorLog2 (hnum : 0 < num) (hden : 0 < den) {k : Int}
    (h : (2 : ℚ) ^ k ≤ (num : ℚ) / den) : k ≤ floorLog2 num den := by
  have hlt := lt_of_le_of_lt h (floorLog2_spec hnum hden).2
  exact Int.le_of_lt_add_one ((zpow_lt_zpow_iff_right₀ (by norm_num)).1 hlt)

/-- A power of two above a quotient has an exponent above its logarithm. -/
theorem floorLog2_lt (hnum : 0 < num) (hden : 0 < den) {k : Int}
    (h : (num : ℚ) / den < 2 ^ k) : floorLog2 num den < k :=
  (zpow_lt_zpow_iff_right₀ (by norm_num)).1 (lt_of_le_of_lt (floorLog2_spec hnum hden).1 h)

/-! ### Quotients to floating-point numbers -/

/-- A quotient over a power of two, rounded to a whole number. -/
def rounded (num den : Nat) (q : Int) : Nat :=
  if 0 ≤ q then roundDiv num (den * twoTo q.toNat) else roundDiv (num * twoTo q.natAbs) den

/-- Rounding at a scale is rounding a quotient to a whole number, on whichever side the unit is put.
-/
theorem exists_rounded (num : Nat) (hden : 0 < den) (q : Int) :
    ∃ num' den', 0 < den' ∧ rounded num den q = roundDiv num' den' ∧
      (num' : ℚ) / den' = (num : ℚ) / den / 2 ^ q := by
  rw [rounded]
  by_cases hq : 0 ≤ q
  · refine ⟨num, den * twoTo q.toNat, Nat.mul_pos hden (twoTo_pos _), if_pos hq, ?_⟩
    rw [zpow_of_nonneg 2 hq, twoTo_eq, div_div]
    push_cast
    rfl
  · refine ⟨num * twoTo q.natAbs, den, hden, if_neg hq, ?_⟩
    rw [zpow_of_neg 2 (Int.not_le.1 hq), twoTo_eq, div_inv_eq_mul, div_mul_eq_mul_div]
    push_cast
    rfl

/-- A quotient that is rounded at a scale gives the whole number that is nearest to it in units. -/
theorem nearest_rounded (num : Nat) (hden : 0 < den) (q : Int) :
    Nearest (rounded num den q) ((num : ℚ) / den / 2 ^ q) := by
  obtain ⟨num', den', hden', hrounded, hquotient⟩ := exists_rounded num hden q
  rw [hrounded, ← hquotient]
  exact nearest_roundDiv num' hden'

/-- The number that is nearest is not below a whole number that the size is not below. -/
theorem Nearest.le_of_le (h : Nearest m x) (hle : (n : ℚ) ≤ x) : n ≤ m := by
  have hlt : (n : ℚ) < m + 1 := by linarith [h.2.1]
  exact Nat.le_of_lt_succ (by exact_mod_cast hlt)

/-- The number that is nearest is not above a whole number that the size is below. -/
theorem Nearest.le_of_lt (h : Nearest m x) (hlt : x < n) : m ≤ n := by
  have hlt : (m : ℚ) < n + 1 := by linarith [h.1]
  exact Nat.le_of_lt_succ (by exact_mod_cast hlt)

/-- The exponent that a quotient is rounded with, unless rounding carries. -/
def scaleOf (num den : Nat) : Int := max (floorLog2 num den - 52) (-1074)

/-- The scale of a quotient is large enough: the quotient has at most 53 digits before the unit. -/
theorem lt_two_zpow_scaleOf (hnum : 0 < num) (hden : 0 < den) :
    (num : ℚ) / den < 2 ^ (scaleOf num den + 53) := by
  refine (floorLog2_spec hnum hden).2.trans_le (zpow_le_zpow_right₀ one_le_two ?_)
  rw [scaleOf]
  omega

/-- The scale of a quotient is small enough, unless it is the least one: the quotient has 53 digits.
-/
theorem two_zpow_scaleOf_le (hnum : 0 < num) (hden : 0 < den) (hne : scaleOf num den ≠ -1074) :
    (2 : ℚ) ^ (scaleOf num den + 52) ≤ (num : ℚ) / den := by
  refine le_trans (zpow_le_zpow_right₀ one_le_two ?_) (floorLog2_spec hnum hden).1
  rw [scaleOf] at hne ⊢
  omega

/-- The exponent is the one that leaves 53 binary places, or the least one. -/
theorem scaleOf_eq (hnum : 0 < num) (hden : 0 < den) (hmin : -1074 ≤ e)
    (hhigh : (num : ℚ) / den < 2 ^ (e + 53))
    (hlow : e ≠ -1074 → (2 : ℚ) ^ (e + 52) ≤ (num : ℚ) / den) : scaleOf num den = e := by
  have hlt := floorLog2_lt hnum hden hhigh
  rw [scaleOf]
  by_cases hne : e = -1074
  · omega
  · have hge := le_floorLog2 hnum hden (hlow hne)
    omega

/-- The number with a coefficient and an exponent, if it is in the range. -/
def inRange (negative : Bool) (parts : Nat × Int) : Binary64 :=
  if 971 < parts.2 then .infinity negative else .finite negative parts.1 parts.2

/-- A quotient rounded at its scale, with the one case in which rounding up reaches the next scale,
and the two in which it leaves the range. -/
theorem ofQuotient_eq (negative : Bool) (num den : Nat) :
    ofQuotient negative num den =
      if rounded num den (scaleOf num den) = 2 ^ 53 then
        if 971 < scaleOf num den + 1 then .infinity negative
        else .finite negative (2 ^ 52) (scaleOf num den + 1)
      else if 971 < scaleOf num den then .infinity negative
      else .finite negative (rounded num den (scaleOf num den)) (scaleOf num den) := by
  have hunfold : ofQuotient negative num den =
      inRange negative (if rounded num den (scaleOf num den) = 2 ^ 53
        then (2 ^ 52, scaleOf num den + 1)
        else (rounded num den (scaleOf num den), scaleOf num den)) := rfl
  rw [hunfold]
  by_cases hcarry : rounded num den (scaleOf num den) = 2 ^ 53
  · rw [if_pos hcarry, if_pos hcarry, inRange]
  · rw [if_neg hcarry, if_neg hcarry, inRange]

/-- **What a quotient is rounded to** has the form of the format, and the quotient lies in its
interval. -/
theorem rounds_of_ofQuotient {negative negative' : Bool} (hnum : 0 < num) (hden : 0 < den)
    (h : ofQuotient negative num den = .finite negative' m e) :
    negative' = negative ∧ Regular m e ∧ Rounds m e ((num : ℚ) / den) := by
  have hhigh := lt_two_zpow_scaleOf hnum hden
  have hlow := two_zpow_scaleOf_le hnum hden
  have hnearest := nearest_rounded num hden (scaleOf num den)
  have hscale : -1074 ≤ scaleOf num den := le_max_right _ _
  rw [ofQuotient_eq] at h
  split at h
  · -- Rounding carries, to a power of two.
    split at h
    · cases h
    · rename_i hcarry hfits
      cases h
      have hedge : IsEdge (2 ^ 52) (scaleOf num den + 1) := ⟨rfl, by omega⟩
      refine ⟨rfl, ⟨by norm_num, by omega, Int.not_lt.1 hfits, .inl le_rfl⟩, ?_⟩
      rw [show scaleOf num den + 53 = scaleOf num den + 1 + 52 by ring] at hhigh
      rw [rounds_iff_nearest_of_lt hedge hhigh, add_sub_cancel_right, ← hcarry]
      exact hnearest
  · split at h
    · cases h
    · rename_i hcarry hfits
      cases h
      have hunit : (0 : ℚ) < 2 ^ scaleOf num den := by positivity
      have hle : rounded num den (scaleOf num den) ≤ 2 ^ 53 := by
        refine hnearest.le_of_lt ?_
        rw [div_lt_iff₀ hunit]
        rw [add_comm, zpow_add₀ two_ne_zero] at hhigh
        exact_mod_cast hhigh
      have hleast : 2 ^ 52 ≤ rounded num den (scaleOf num den) ∨ scaleOf num den = -1074 := by
        refine or_iff_not_imp_right.2 fun hne => hnearest.le_of_le ?_
        have hle := hlow hne
        rw [le_div_iff₀ hunit]
        rw [add_comm, zpow_add₀ two_ne_zero] at hle
        exact_mod_cast hle
      refine ⟨rfl, ⟨lt_of_le_of_ne hle hcarry, hscale, Int.not_lt.1 hfits, hleast⟩, ?_⟩
      exact (rounds_iff_nearest fun hedge => hlow hedge.2).2 hnearest

/-- **A quotient is rounded to the number whose interval it lies in.** -/
theorem ofQuotient_of_rounds (negative : Bool) (hregular : Regular m e)
    (hnum : 0 < num) (hden : 0 < den) (h : Rounds m e ((num : ℚ) / den)) :
    ofQuotient negative num den = .finite negative m e := by
  obtain ⟨hlt, hmin, hmax, hleast⟩ := hregular
  by_cases hcarry : IsEdge m e ∧ (num : ℚ) / den < 2 ^ (e + 52)
  · -- Just below a power of two the exponent is one less, and rounding carries.
    obtain ⟨hedge, hbelow⟩ := hcarry
    have hge : (2 : ℚ) ^ (e - 1 + 52) ≤ (num : ℚ) / den := by
      rw [two_zpow_of_eq (e := e) (n := 53) (by omega)]
      refine le_trans ?_ h.1
      rw [below, if_pos hedge, hedge.1]
      refine mul_le_mul_of_nonneg_right ?_ (by positivity)
      norm_num
    have hscale : scaleOf num den = e - 1 := by
      have hne := hedge.2
      refine scaleOf_eq hnum hden (by omega) ?_ fun _ => hge
      rwa [show e - 1 + 53 = e + 52 by ring]
    have hrounded : rounded num den (e - 1) = 2 ^ 53 :=
      (nearest_rounded num hden (e - 1)).unique ((rounds_iff_nearest_of_lt hedge hbelow).1 h)
    rw [ofQuotient_eq, hscale, hrounded, if_pos rfl, sub_add_cancel, if_neg (Int.not_lt.2 hmax),
      hedge.1]
  · -- Otherwise the exponent is that of the number.
    have hedge (hedge : IsEdge m e) : (2 : ℚ) ^ (e + 52) ≤ (num : ℚ) / den :=
      le_of_not_gt fun hbelow => hcarry ⟨hedge, hbelow⟩
    have hscale : scaleOf num den = e :=
      scaleOf_eq hnum hden hmin (h.lt hlt) fun hne => h.le (hleast.resolve_right hne) hne hedge
    have hrounded : rounded num den e = m :=
      (nearest_rounded num hden e).unique ((rounds_iff_nearest hedge).1 h)
    rw [ofQuotient_eq, hscale, hrounded, if_neg (Nat.ne_of_lt hlt), if_neg (Int.not_lt.2 hmax)]

/-! ### Decimal numbers -/

/-- A decimal number that is neither zero nor sorted out by its magnitude is rounded as a
quotient. -/
theorem exists_quotient {d : Decimal} (hne : d.coefficient ≠ 0) (hhigh : d.magnitude ≤ 310)
    (hlow : -330 ≤ d.magnitude) :
    ∃ num den, 0 < num ∧ 0 < den ∧ ofDecimal d = ofQuotient d.negative num den ∧
      (num : ℚ) / den = d.size := by
  have hpos : 0 < d.coefficient := Nat.pos_of_ne_zero hne
  rw [ofDecimal, if_neg hne, if_neg (Int.not_lt.2 hhigh), if_neg (Int.not_lt.2 hlow)]
  by_cases hexponent : 0 ≤ d.exponent
  · refine ⟨_, 1, Nat.mul_pos hpos (tenTo_pos _), Nat.one_pos, if_pos hexponent, ?_⟩
    rw [Decimal.size, zpow_of_nonneg 10 hexponent, tenTo_eq]
    push_cast
    rw [div_one]
  · refine ⟨d.coefficient, _, hpos, tenTo_pos _, if_neg hexponent, ?_⟩
    rw [Decimal.size, zpow_of_neg 10 (Int.not_le.1 hexponent), tenTo_eq, div_eq_mul_inv]
    push_cast
    rfl

/-- **What a decimal number is rounded to** has the form of the format, and the decimal number lies
in its interval unless it is too small to be looked at. -/
theorem rounds_of_ofDecimal {d : Decimal} {negative : Bool}
    (h : ofDecimal d = .finite negative m e) :
    negative = d.negative ∧ Regular m e ∧
      (d.coefficient ≠ 0 → -330 ≤ d.magnitude → Rounds m e d.size) := by
  have hzero : Regular 0 (-1074) := ⟨by norm_num, le_rfl, by norm_num, .inr rfl⟩
  by_cases hne : d.coefficient = 0
  · rw [ofDecimal, if_pos hne] at h
    cases h
    exact ⟨rfl, hzero, fun h => absurd hne h⟩
  by_cases hhigh : 310 < d.magnitude
  · rw [ofDecimal, if_neg hne, if_pos hhigh] at h
    cases h
  by_cases hlow : d.magnitude < -330
  · rw [ofDecimal, if_neg hne, if_neg hhigh, if_pos hlow] at h
    cases h
    exact ⟨rfl, hzero, fun _ h => absurd hlow (Int.not_lt.2 h)⟩
  · obtain ⟨num, den, hnum, hden, hquotient, hsize⟩ :=
      exists_quotient hne (Int.not_lt.1 hhigh) (Int.not_lt.1 hlow)
    rw [hquotient] at h
    obtain ⟨hsign, hregular, hrounds⟩ := rounds_of_ofQuotient hnum hden h
    exact ⟨hsign, hregular, fun _ _ => hsize ▸ hrounds⟩

/-- The interval of a number that is not zero reaches neither down to the sizes that are taken for
zero nor up to those that are taken for infinity. -/
theorem Rounds.bounds (h : Rounds m e x) (hregular : Regular m e) (hm : 0 < m) :
    (10 : ℚ) ^ (-331 : Int) ≤ x ∧ x < 10 ^ (310 : Int) := by
  obtain ⟨hlow, hhigh, -⟩ := h
  obtain ⟨hlt, hmin, hmax, -⟩ := hregular
  constructor
  · refine le_trans ?_ hlow
    have hone : (1 : ℚ) ≤ m := by exact_mod_cast hm
    calc (10 : ℚ) ^ (-331 : Int) ≤ 2 ^ (-1075 : Int) := by
          have hpow : 2 ^ 1075 ≤ 10 ^ 331 := by decide +kernel
          rw [zpow_neg, zpow_neg]
          refine inv_anti₀ (by positivity) ?_
          exact_mod_cast hpow
      _ = 2 * 2 ^ (-1076 : Int) := zpow_one_add₀ two_ne_zero (-1076)
      _ ≤ 2 * 2 ^ (e - 2) := by
        have := zpow_le_zpow_right₀ (one_le_two (α := ℚ)) (show -1076 ≤ e - 2 by omega)
        linarith
      _ ≤ below m e := by
        refine mul_le_mul_of_nonneg_right ?_ (by positivity)
        split <;> linarith
  · refine lt_of_le_of_lt hhigh ?_
    have hm53 : (m : ℚ) < 2 ^ 53 := by exact_mod_cast hlt
    calc above m e ≤ (4 * 2 ^ 53 + 2) * 2 ^ (e - 2) := by
          refine mul_le_mul_of_nonneg_right ?_ (by positivity)
          linarith
      _ ≤ (4 * 2 ^ 53 + 2) * 2 ^ (969 : Int) := by
        refine mul_le_mul_of_nonneg_left ?_ (by norm_num)
        exact zpow_le_zpow_right₀ one_le_two (by omega)
      _ < 10 ^ (310 : Int) := by
        have hpow : (4 * 2 ^ 53 + 2) * 2 ^ 969 < 10 ^ 310 := by decide +kernel
        exact_mod_cast hpow

/-- **A decimal number is rounded to the floating-point number whose interval it lies in.** -/
theorem ofDecimal_of_rounds {d : Decimal} (hregular : Regular m e) (hm : 0 < m)
    (h : Rounds m e d.size) : ofDecimal d = .finite d.negative m e := by
  obtain ⟨hlow, hhigh⟩ := h.bounds hregular hm
  have hne : d.coefficient ≠ 0 := by
    intro hzero
    rw [Decimal.size, hzero, Nat.cast_zero, zero_mul] at hlow
    exact absurd hlow (not_le.2 (by positivity))
  have hhigh' : d.magnitude - 1 < 310 :=
    (zpow_lt_zpow_iff_right₀ (by norm_num)).1 ((Decimal.le_size hne).trans_lt hhigh)
  have hlow' : -331 < d.magnitude :=
    (zpow_lt_zpow_iff_right₀ (by norm_num)).1 (hlow.trans_lt (Decimal.size_lt d))
  obtain ⟨num, den, hnum, hden, hquotient, hsize⟩ :=
    exists_quotient hne (Int.le_of_sub_one_lt hhigh') (Int.add_one_le_of_lt hlow')
  rw [hquotient]
  exact ofQuotient_of_rounds _ hregular hnum hden (hsize ▸ h)

end Binary64

end ConfigGraft
