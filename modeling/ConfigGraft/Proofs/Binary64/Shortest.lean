import ConfigGraft.Proofs.Binary64.Rounding

/-!
# Decimal numbers that are rounded back

For each number of digits the two multiples of a power of ten next to a floating-point number are
tried. One that lies in the interval of the number is rounded to it. With seventeen digits the
powers of ten are closer together than the ends of the interval, so one of the two lies in it at the
latest then, and the search comes to an end.

## Main results

* `Binary64.rounds_of_onGrid?` — a multiple that is taken lies in the interval;
* `Binary64.onGrid?_ne_none_of_rounds` — one is taken if there is any in the interval;
* `Binary64.onGrid?_ne_none` — one is taken if the multiples are closer together than the ends;
* `Binary64.shortestFrom_spec` — the search ends with the fewest digits for which one is taken;
* `Binary64.ofDecimal_toDecimal` — **the decimal number that is chosen is rounded back, and so is
  any other one of its sign and size.**
-/

namespace ConfigGraft.Binary64

variable {m c : Nat} {e p k : Int}

/-! ### Multiples of a power of ten -/

/-- What a multiple of `10 ^ p` counts for in whole numbers. -/
def gridUnit (e p : Int) : Nat := tenTo p.toNat * twoTo (-(e - 2)).toNat

/-- What a multiple of `2 ^ (e - 2)` counts for in whole numbers. -/
def gridScale (e p : Int) : Nat := twoTo (e - 2).toNat * tenTo (-p).toNat

/-- The test for a multiple of `10 ^ p` to lie in the interval of `m · 2 ^ e`. -/
def isInside (m : Nat) (e p : Int) (c : Nat) : Bool :=
  let lower := (4 * m - if IsEdge m e then 1 else 2) * gridScale e p
  let upper := (4 * m + 2) * gridScale e p
  if m % 2 = 0 then lower ≤ c * gridUnit e p && c * gridUnit e p ≤ upper
  else lower < c * gridUnit e p && c * gridUnit e p < upper

/-- The multiple of `10 ^ p` that is not above `m · 2 ^ e`. -/
def gridBelow (m : Nat) (e p : Int) : Nat := 4 * m * gridScale e p / gridUnit e p

/-- The unit of a grid is positive. -/
theorem gridUnit_pos (e p : Int) : 0 < gridUnit e p :=
  Nat.mul_pos (tenTo_pos _) (twoTo_pos _)

/-- A whole power is the natural power, corrected by that of the opposite exponent, and one of the
two is one. -/
theorem pow_toNat {b : ℚ} (hb : b ≠ 0) (n : Int) : b ^ n.toNat = b ^ n * b ^ (-n).toNat := by
  rw [← zpow_natCast, ← zpow_natCast, ← zpow_add₀ hb]
  congr 1
  omega

/-- Both count for the same multiple of what they stand for. -/
theorem exists_ratio (e p : Int) :
    ∃ r : ℚ, 0 < r ∧ (gridScale e p : ℚ) = r * 2 ^ (e - 2) ∧ (gridUnit e p : ℚ) = r * 10 ^ p := by
  have hten := pow_toNat (b := 10) (by norm_num) p
  have htwo := pow_toNat (b := 2) (by norm_num) (e - 2)
  refine ⟨2 ^ (-(e - 2)).toNat * 10 ^ (-p).toNat, by positivity, ?_, ?_⟩
  · rw [gridScale, tenTo_eq, twoTo_eq]
    push_cast
    rw [htwo]
    ring
  · rw [gridUnit, tenTo_eq, twoTo_eq]
    push_cast
    rw [hten]
    ring

/-- Multiples of the two powers compare as what they count for. -/
theorem scale_le_unit_iff (a c : Nat) :
    a * gridScale e p ≤ c * gridUnit e p ↔ (a : ℚ) * 2 ^ (e - 2) ≤ c * 10 ^ p := by
  obtain ⟨r, hr, hscale, hunit⟩ := exists_ratio e p
  rw [← mul_le_mul_iff_right₀ hr, mul_left_comm r, mul_left_comm r, ← hscale, ← hunit]
  exact_mod_cast Iff.rfl

/-- Comparing whole multiples on the grid is comparing the numbers that they stand for, with the
decimal on the left. -/
theorem unit_le_scale_iff (a c : Nat) :
    c * gridUnit e p ≤ a * gridScale e p ↔ (c : ℚ) * 10 ^ p ≤ a * 2 ^ (e - 2) := by
  obtain ⟨r, hr, hscale, hunit⟩ := exists_ratio e p
  rw [← mul_le_mul_iff_right₀ hr, mul_left_comm r, mul_left_comm r, ← hscale, ← hunit]
  exact_mod_cast Iff.rfl

/-- **The test tells** whether the multiple lies in the interval. -/
theorem isInside_iff (hm : 0 < m) : isInside m e p c = true ↔ Rounds m e (c * 10 ^ p) := by
  have hlow : ((4 * m - if IsEdge m e then 1 else 2 : ℕ) : ℚ) * 2 ^ (e - 2) =
      below m e := by
    rw [below]
    split <;> push_cast [show 2 ≤ 4 * m by omega, show 1 ≤ 4 * m by omega] <;> rfl
  have hhigh : ((4 * m + 2 : ℕ) : ℚ) * 2 ^ (e - 2) = above m e := by
    rw [above]
    push_cast
    rfl
  have hle := scale_le_unit_iff (e := e) (p := p)
    (4 * m - if IsEdge m e then 1 else 2) c
  have hge := unit_le_scale_iff (e := e) (p := p) (4 * m + 2) c
  have hlt := (unit_le_scale_iff (e := e) (p := p)
    (4 * m - if IsEdge m e then 1 else 2) c).not
  have hgt := (scale_le_unit_iff (e := e) (p := p) (4 * m + 2) c).not
  rw [Nat.not_le, not_le, hlow] at hlt
  rw [Nat.not_le, not_le, hhigh] at hgt
  rw [hlow] at hle
  rw [hhigh] at hge
  rw [isInside, Rounds, Within]
  obtain hmod | hmod := Nat.mod_two_eq_zero_or_one m
  · rw [if_pos hmod, Bool.and_eq_true, decide_eq_true_eq, decide_eq_true_eq, hle, hge]
    refine ⟨fun h => ⟨h.1, h.2, fun hodd => ?_⟩, fun h => ⟨h.1, h.2.1⟩⟩
    rw [hmod] at hodd
    cases hodd
  · rw [if_neg (by omega), Bool.and_eq_true, decide_eq_true_eq, decide_eq_true_eq, hlt, hgt]
    exact ⟨fun h => ⟨h.1.le, h.2.le, fun _ => h⟩, fun h => h.2.2 hmod⟩

/-- The multiple below is the last one that is not above the number. -/
theorem gridBelow_spec (m : Nat) (e p : Int) :
    (gridBelow m e p : ℚ) * 10 ^ p ≤ 4 * m * 2 ^ (e - 2) ∧
      4 * m * 2 ^ (e - 2) < ((gridBelow m e p + 1 : ℕ) : ℚ) * 10 ^ p := by
  have hle := (unit_le_scale_iff (4 * m) (gridBelow m e p)).1 (Nat.div_mul_le_self _ (gridUnit e p))
  have hlt := (unit_le_scale_iff (4 * m) (gridBelow m e p + 1)).not.1
    (Nat.not_le.2 (Nat.lt_mul_of_div_lt (Nat.lt_succ_self _) (gridUnit_pos e p)))
  push_cast at hle hlt ⊢
  exact ⟨hle, not_le.1 hlt⟩

/-- The multiple that is chosen on a grid, by which of the two neighbours of the number lie in its
interval. -/
theorem onGrid?_eq (m : Nat) (e p : Int) :
    onGrid? m e p =
      match isInside m e p (gridBelow m e p) && gridBelow m e p != 0,
        isInside m e p (gridBelow m e p + 1) with
      | true, true =>
        let down := 4 * m * gridScale e p - gridBelow m e p * gridUnit e p
        let up := (gridBelow m e p + 1) * gridUnit e p - 4 * m * gridScale e p
        if down < up || (down == up && gridBelow m e p % 2 == 0) then some (gridBelow m e p)
        else some (gridBelow m e p + 1)
      | true, false => some (gridBelow m e p)
      | false, true => some (gridBelow m e p + 1)
      | false, false => none := rfl

/-- A multiple that is taken is one of the two next to the number, and the test holds for it. -/
theorem isInside_of_onGrid? (h : onGrid? m e p = some c) : isInside m e p c = true ∧ c ≠ 0 := by
  rw [onGrid?_eq] at h
  have hbelow (hin : (isInside m e p (gridBelow m e p) && gridBelow m e p != 0) = true) :
      isInside m e p (gridBelow m e p) = true ∧ gridBelow m e p ≠ 0 := by
    simpa using hin
  split at h
  · rename_i hin hin'
    simp only at h
    split at h <;> cases h
    · exact hbelow hin
    · exact ⟨hin', Nat.succ_ne_zero _⟩
  · rename_i hin hin'
    cases h
    exact hbelow hin
  · rename_i hin hin'
    cases h
    exact ⟨hin', Nat.succ_ne_zero _⟩
  · cases h

/-- **A multiple that is taken** lies in the interval. -/
theorem rounds_of_onGrid? (hm : 0 < m) (h : onGrid? m e p = some c) :
    c ≠ 0 ∧ Rounds m e (c * 10 ^ p) :=
  ⟨(isInside_of_onGrid? h).2, (isInside_iff hm).1 (isInside_of_onGrid? h).1⟩

/-- A number lies in its own interval. -/
theorem below_lt_above (m : Nat) (e : Int) :
    below m e < 4 * m * 2 ^ (e - 2) ∧ 4 * m * 2 ^ (e - 2) < above m e := by
  have hpos : (0 : ℚ) < 2 ^ (e - 2) := by positivity
  constructor
  · refine mul_lt_mul_of_pos_right ?_ hpos
    split <;> linarith
  · exact mul_lt_mul_of_pos_right (by linarith) hpos

/-- If no multiple is taken, neither of the two neighbours lies in the interval. -/
theorem not_rounds_of_onGrid?_eq_none (hm : 0 < m) (h : onGrid? m e p = none) :
    (gridBelow m e p ≠ 0 → ¬ Rounds m e (gridBelow m e p * 10 ^ p)) ∧
      ¬ Rounds m e ((gridBelow m e p + 1 : ℕ) * 10 ^ p) := by
  rw [← isInside_iff hm, ← isInside_iff hm]
  rw [onGrid?_eq] at h
  split at h
  · simp only at h
    split at h <;> cases h
  · cases h
  · cases h
  · rename_i hout hout'
    refine ⟨fun hne hin => ?_, Bool.eq_false_iff.1 hout'⟩
    rw [hin, Bool.true_and, bne_eq_false_iff_eq] at hout
    exact hne hout

/-- **One of the two neighbours is taken** if any multiple lies in the interval. -/
theorem onGrid?_ne_none_of_rounds (hm : 0 < m) (hc : c ≠ 0) (h : Rounds m e (c * 10 ^ p)) :
    onGrid? m e p ≠ none := by
  intro hnone
  obtain ⟨hle, hlt⟩ := gridBelow_spec m e p
  obtain ⟨hbelow, habove⟩ := below_lt_above m e
  obtain ⟨hout, hout'⟩ := not_rounds_of_onGrid?_eq_none hm hnone
  obtain ⟨hlow, hhigh, hodd⟩ := h
  have hpos : (0 : ℚ) < 10 ^ p := zpow_pos (by norm_num) _
  -- The neighbour on its side is between the multiple and the number.
  obtain hside | hside : c ≤ gridBelow m e p ∨ gridBelow m e p + 1 ≤ c := by omega
  · have hmul : (c : ℚ) * 10 ^ p ≤ gridBelow m e p * 10 ^ p :=
      mul_le_mul_of_nonneg_right (by exact_mod_cast hside) hpos.le
    refine hout (by omega) ⟨hlow.trans hmul, (hle.trans_lt habove).le, fun hm => ?_⟩
    exact ⟨(hodd hm).1.trans_le hmul, hle.trans_lt habove⟩
  · have hmul : ((gridBelow m e p + 1 : ℕ) : ℚ) * 10 ^ p ≤ c * 10 ^ p :=
      mul_le_mul_of_nonneg_right (by exact_mod_cast hside) hpos.le
    refine hout' ⟨(hbelow.trans hlt).le, hmul.trans hhigh, fun hm => ?_⟩
    exact ⟨hbelow.trans hlt, hmul.trans_lt (hodd hm).2⟩

/-- **One of the two neighbours is taken** if the multiples are closer together than the ends of the
interval. -/
theorem onGrid?_ne_none (hm : 0 < m) (hsmall : (10 : ℚ) ^ p ≤ 4 * m * 2 ^ (e - 2))
    (hdense : (10 : ℚ) ^ p < above m e - below m e) : onGrid? m e p ≠ none := by
  intro hnone
  obtain ⟨hle, hlt⟩ := gridBelow_spec m e p
  obtain ⟨hbelow, habove⟩ := below_lt_above m e
  obtain ⟨hout, hout'⟩ := not_rounds_of_onGrid?_eq_none hm hnone
  have hne : gridBelow m e p ≠ 0 := by
    intro hzero
    rw [hzero] at hlt
    push_cast at hlt
    linarith
  -- So the two neighbours stand on either side of the interval.
  have hlow : (gridBelow m e p : ℚ) * 10 ^ p ≤ below m e :=
    le_of_not_gt fun hgt => hout hne ⟨hgt.le, by linarith, fun _ => ⟨hgt, by linarith⟩⟩
  have hhigh : above m e ≤ ((gridBelow m e p + 1 : ℕ) : ℚ) * 10 ^ p :=
    le_of_not_gt fun hgt => hout' ⟨by linarith, hgt.le, fun _ => ⟨by linarith, hgt⟩⟩
  push_cast at hhigh
  linarith

/-! ### The search -/

/-- The magnitude of a number is found by the digits of its whole part on a fine scale. -/
theorem exists_whole (hm : 0 < m) (he : -1074 ≤ e) :
    ∃ whole : Nat, whole ≠ 0 ∧
      decimalMagnitude m e = ((Decimal.digits whole).length : Int) - 350 ∧
      (whole : ℚ) ≤ m * 2 ^ e * 10 ^ (350 : Int) ∧
      (m : ℚ) * 2 ^ e * 10 ^ (350 : Int) < (whole + 1 : ℕ) := by
  have hten : (tenTo 350 : ℚ) = 10 ^ (350 : Int) := by
    rw [tenTo_eq, Nat.cast_pow, Nat.cast_ofNat]
    exact (zpow_natCast 10 350).symm
  rw [← hten]
  by_cases hsign : 0 ≤ e
  · have hexact : (m : ℚ) * 2 ^ e * tenTo 350 = (m * tenTo 350 * twoTo e.toNat : ℕ) := by
      rw [zpow_of_nonneg 2 hsign, twoTo_eq]
      push_cast
      ring
    rw [hexact]
    refine ⟨m * tenTo 350 * twoTo e.toNat, ?_, ?_, le_rfl, ?_⟩
    · exact (Nat.mul_pos (Nat.mul_pos hm (tenTo_pos _)) (twoTo_pos _)).ne'
    · rw [decimalMagnitude, if_pos hsign]
      rfl
    · exact_mod_cast Nat.lt_succ_self _
  · have htwo : (0 : ℚ) < twoTo e.natAbs := by exact_mod_cast twoTo_pos _
    have hquotient :
        (m : ℚ) * 2 ^ e * tenTo 350 = ((m * tenTo 350 : ℕ) : ℚ) / twoTo e.natAbs := by
      rw [zpow_of_neg 2 (Int.not_le.1 hsign), twoTo_eq]
      push_cast
      ring
    rw [hquotient]
    refine ⟨m * tenTo 350 / twoTo e.natAbs, ?_, ?_, ?_, ?_⟩
    · have hpow : twoTo 1074 ≤ tenTo 350 := by decide +kernel
      have hle : twoTo e.natAbs ≤ m * tenTo 350 :=
        ((twoTo_le_twoTo (by omega)).trans hpow).trans (Nat.le_mul_of_pos_left _ hm)
      exact (Nat.div_pos hle (twoTo_pos _)).ne'
    · rw [decimalMagnitude, if_neg hsign]
      rfl
    · rw [le_div_iff₀ htwo]
      exact_mod_cast Nat.div_mul_le_self _ _
    · rw [div_lt_iff₀ htwo]
      exact_mod_cast Nat.lt_mul_of_div_lt (Nat.lt_succ_self _) (twoTo_pos _)

/-- A number lies between two powers of ten as its magnitude says. -/
theorem decimalMagnitude_spec (hm : 0 < m) (he : -1074 ≤ e) :
    (10 : ℚ) ^ (decimalMagnitude m e - 1) ≤ m * 2 ^ e ∧
      (m : ℚ) * 2 ^ e < 10 ^ decimalMagnitude m e := by
  obtain ⟨whole, hwhole, hmagnitude, hle, hlt⟩ := exists_whole hm he
  have hpos : 0 < (Decimal.digits whole).length :=
    List.length_pos_iff.2 (Decimal.digits_ne_nil whole)
  have hscale : (0 : ℚ) < 10 ^ (350 : Int) := zpow_pos (by norm_num) _
  constructor
  · have hlow : (10 : ℚ) ^ ((Decimal.digits whole).length - 1) ≤ whole := by
      exact_mod_cast Decimal.pow_length_le hwhole
    refine le_of_mul_le_mul_right (le_trans (le_of_eq ?_) (hlow.trans hle)) hscale
    rw [← zpow_natCast, ← zpow_add₀ (by norm_num), hmagnitude]
    congr 1
    omega
  · have hhigh : ((whole + 1 : ℕ) : ℚ) ≤ 10 ^ (Decimal.digits whole).length := by
      exact_mod_cast Decimal.lt_pow_length whole
    refine lt_of_mul_lt_mul_right ((hlt.trans_le hhigh).trans_eq ?_) hscale.le
    rw [← zpow_natCast, ← zpow_add₀ (by norm_num), hmagnitude, sub_add_cancel]

/-- **With seventeen digits** one of the neighbours is taken at the latest. -/
theorem onGrid?_seventeen (hm : 0 < m) (hlt : m < 2 ^ 53) (hk : (10 : ℚ) ^ (k - 1) ≤ m * 2 ^ e) :
    onGrid? m e (k - 17) ≠ none := by
  have hquarter : (0 : ℚ) < 2 ^ (e - 2) := by positivity
  have hvalue : (m : ℚ) * 2 ^ e = 4 * m * 2 ^ (e - 2) := by
    rw [two_zpow_eq e]
    ring
  have hunit : (10 : ℚ) ^ (k - 1) = 10 ^ 16 * 10 ^ (k - 17) := by
    rw [← zpow_natCast, ← zpow_add₀ (by norm_num)]
    congr 1
    push_cast
    omega
  have hpos : (0 : ℚ) < 10 ^ (k - 17) := zpow_pos (by norm_num) _
  rw [hvalue, hunit] at hk
  refine onGrid?_ne_none hm (by linarith) ?_
  rw [above, below]
  have hlt' : (m : ℚ) + 1 ≤ 2 ^ 53 := by exact_mod_cast hlt
  split
  · rename_i hedge
    rw [hedge.1] at hk ⊢
    push_cast at hk ⊢
    linarith
  · have hmul := mul_le_mul_of_nonneg_right hlt' hquarter.le
    linarith

/-- **The search ends** no later than with a number of digits for which a multiple is taken. -/
theorem shortestFrom_spec {l : Nat} (hl : onGrid? m e (k - l) ≠ none) :
    ∀ tries n, n ≤ l → l < n + tries → ∃ j c, j ≤ l ∧ onGrid? m e (k - j) = some c ∧
      shortestFrom m e k n tries = { coefficient := c, exponent := k - j } := by
  intro tries
  induction tries with
  | zero => exact fun n hn hlt => absurd hlt (Nat.not_lt.2 hn)
  | succ tries ih =>
    intro n hn hlt
    cases hgrid : onGrid? m e (k - n) with
    | some c => exact ⟨n, c, hn, hgrid, by rw [shortestFrom, hgrid]⟩
    | none =>
      have hne : n ≠ l := by
        rintro rfl
        exact hl hgrid
      obtain ⟨j, c, hj, hc, hfrom⟩ := ih (n + 1) (by omega) (by omega)
      exact ⟨j, c, hj, hc, by rw [shortestFrom, hgrid, hfrom]⟩

/-- The number that is chosen lies in the interval. -/
theorem rounds_shortest (hregular : Regular m e) (hm : 0 < m) : Rounds m e (shortest m e).size := by
  have hlow := (decimalMagnitude_spec hm hregular.le_exponent).1
  obtain ⟨j, c, -, hc, hfrom⟩ := shortestFrom_spec (l := 17)
    (onGrid?_seventeen hm hregular.lt hlow) 17 1 (by decide) (by decide)
  rw [shortest, Decimal.size_normalize, hfrom]
  exact (rounds_of_onGrid? hm hc).2

/-- **The decimal number that is chosen is rounded back,** and so is any other one of its sign and
size. -/
theorem ofDecimal_toDecimal {negative : Bool} (hregular : Regular m e) {d : Decimal}
    (hsign : d.negative = (toDecimal negative m e).negative)
    (hsize : d.size = (toDecimal negative m e).size) : ofDecimal d = .finite negative m e := by
  by_cases hm : m = 0
  · subst hm
    have hcoefficient : d.coefficient = 0 := by
      rw [toDecimal, if_pos rfl, Decimal.size, Decimal.size, Nat.cast_zero, zero_mul] at hsize
      exact_mod_cast (mul_eq_zero.1 hsize).resolve_right (zpow_ne_zero _ (by norm_num))
    have he : e = -1074 := hregular.least.resolve_left (by norm_num)
    rw [toDecimal, if_pos rfl] at hsign
    rw [ofDecimal, if_pos hcoefficient, hsign, he]
  · rw [toDecimal, if_neg hm] at hsign hsize
    have hrounds := rounds_shortest hregular (Nat.pos_of_ne_zero hm)
    rw [ofDecimal_of_rounds hregular (Nat.pos_of_ne_zero hm) (hsize ▸ hrounds), hsign]

end ConfigGraft.Binary64
