import DesignTokens.Proofs.Decimal.Interval
/-!
# The shortest decimal reads back

The shortest decimal of a positive finite number lies in the rounding interval of the number: on the
finest grid that is tried, the interval is wider than the grid.  It therefore tells the number.
-/

set_option autoImplicit false

namespace DesignTokens.Decimal

/-! ## The first digit -/

theorem pow_digitCount_le {n : Nat} (h : 0 < n) : 10 ^ (digitCount n - 1) ≤ n := by
  unfold digitCount
  by_contra hlt
  have hpos : 0 < (Nat.toDigits 10 n).length - 1 := by
    rcases Nat.eq_zero_or_pos ((Nat.toDigits 10 n).length - 1) with hzero | hpos
    · rw [hzero] at hlt
      omega
    · exact hpos
  have hle := (Nat.length_toDigits_le_iff (by decide) hpos).mpr (Nat.lt_of_not_le hlt)
  omega

theorem lt_pow_digitCount (n : Nat) : n < 10 ^ digitCount n := by
  unfold digitCount
  exact (Nat.length_toDigits_le_iff (by decide) Nat.length_toDigits_pos).mp (Nat.le_refl _)

theorem digitCount_pos (n : Nat) : 0 < digitCount n :=
  Nat.length_toDigits_pos

/-- The power of ten of the leading digit is no greater than the number. -/
theorem zpow_leadingExponent_le {num den : Nat} (hnum : 0 < num) (hden : 0 < den) :
    (10 : ℚ) ^ leadingExponent num den ≤ (num : ℚ) / den := by
  have hden' : (0 : ℚ) < den := by exact_mod_cast hden
  unfold leadingExponent
  by_cases hle : den ≤ num
  · rw [if_pos hle]
    have hquotient : 0 < num / den := Nat.div_pos hle hden
    have hexponent : (digitCount (num / den) : ℤ) - 1 = ((digitCount (num / den) - 1 : ℕ) : ℤ) := by
      have := digitCount_pos (num / den)
      omega
    rw [hexponent, zpow_natCast, le_div_iff₀ hden']
    have hmul : 10 ^ (digitCount (num / den) - 1) * den ≤ num :=
      (Nat.mul_le_mul_right den (pow_digitCount_le hquotient)).trans (Nat.div_mul_le_self num den)
    exact_mod_cast hmul
  · rw [if_neg hle, zpow_neg, zpow_natCast]
    have hceil : den ≤ num * 10 ^ digitCount ((den + num - 1) / num - 1) := by
      have hlt := lt_pow_digitCount ((den + num - 1) / num - 1)
      generalize 10 ^ digitCount ((den + num - 1) / num - 1) = power at hlt ⊢
      have hup : (den + num - 1) / num ≤ power := by omega
      have hdiv := Nat.lt_mul_div_succ (den + num - 1) hnum
      have hmono : num * ((den + num - 1) / num) ≤ num * power := Nat.mul_le_mul_left num hup
      rw [Nat.mul_add] at hdiv
      omega
    rw [inv_eq_one_div, div_le_div_iff₀ (by positivity) hden', one_mul]
    exact_mod_cast hceil

/-! ## Grids -/

/-- What a grid offers lies in the interval. -/
theorem RoundingInterval.contains_of_onGrid {i : RoundingInterval} {power : ℤ}
    {a : Approximation} (h : i.onGrid power = some a) : i.contains a = true := by
  unfold RoundingInterval.onGrid at h
  simp only at h
  split at h
  · rename_i hbelow habove
    rw [Option.some.injEq] at h
    subst h
    split
    · exact habove
    · exact hbelow
  · rename_i hbelow _
    rw [Option.some.injEq] at h
    exact h ▸ hbelow
  · rename_i _ habove
    rw [Option.some.injEq] at h
    exact h ▸ habove
  · cases h

/-- The neighbours of the value on a grid are on both sides of it. -/
theorem RoundingInterval.neighbours {i : RoundingInterval} (hden : 0 < i.denominator)
    (power : ℤ) :
    let digits := i.value * 10 ^ (-power).toNat / (i.denominator * 10 ^ power.toNat)
    Approximation.value ⟨digits, power⟩ ≤ (i.value : ℚ) / i.denominator ∧
      (i.value : ℚ) / i.denominator < Approximation.value ⟨digits + 1, power⟩ := by
  intro digits
  have hden' : (0 : ℚ) < i.denominator := by exact_mod_cast hden
  have hgrid : 0 < i.denominator * 10 ^ power.toNat := by positivity
  have hlow : digits * (i.denominator * 10 ^ power.toNat) ≤ i.value * 10 ^ (-power).toNat :=
    Nat.div_mul_le_self _ _
  have hhigh : i.value * 10 ^ (-power).toNat < (digits + 1) * (i.denominator * 10 ^ power.toNat) :=
    Nat.lt_mul_of_div_lt (Nat.lt_succ_self _) hgrid
  rw [Approximation.value_eq_div, Approximation.value_eq_div]
  constructor
  · rw [div_le_div_iff₀ (by positivity) hden']
    norm_cast
    calc digits * 10 ^ power.toNat * i.denominator
        = digits * (i.denominator * 10 ^ power.toNat) := by ring
      _ ≤ i.value * 10 ^ (-power).toNat := hlow
  · rw [div_lt_div_iff₀ hden' (by positivity)]
    norm_cast
    calc i.value * 10 ^ (-power).toNat
        < (digits + 1) * (i.denominator * 10 ^ power.toNat) := hhigh
      _ = (digits + 1) * 10 ^ power.toNat * i.denominator := by ring

/-- A grid finer than the width of the interval has a point in it. -/
theorem RoundingInterval.onGrid_isSome {i : RoundingInterval} (hden : 0 < i.denominator)
    {power : ℤ} (hlow : (i.low : ℚ) / i.denominator < (i.value : ℚ) / i.denominator)
    (hhigh : (i.value : ℚ) / i.denominator < (i.high : ℚ) / i.denominator)
    (hwide : (10 : ℚ) ^ power <
      (i.high : ℚ) / i.denominator - (i.low : ℚ) / i.denominator) :
    (i.onGrid power).isSome := by
  obtain ⟨hbelow, habove⟩ := i.neighbours hden power
  unfold RoundingInterval.onGrid
  simp only [Nat.pow_eq]
  generalize i.value * 10 ^ (-power).toNat / (i.denominator * 10 ^ power.toNat) = digits
    at hbelow habove ⊢
  split <;> try rfl
  rename_i hnotBelow hnotAbove
  exfalso
  have hstep : Approximation.value ⟨digits + 1, power⟩ =
      Approximation.value ⟨digits, power⟩ + (10 : ℚ) ^ power := by
    unfold Approximation.value
    push_cast
    ring
  have hleft : Approximation.value ⟨digits, power⟩ ≤ (i.low : ℚ) / i.denominator := by
    by_contra hlt
    rw [not_le] at hlt
    have hcovers : i.Covers (Approximation.value ⟨digits, power⟩) := by
      unfold RoundingInterval.Covers
      split
      · exact ⟨hlt.le, (hbelow.trans_lt hhigh).le⟩
      · exact ⟨hlt, hbelow.trans_lt hhigh⟩
    rw [← RoundingInterval.contains_iff hden, hnotBelow] at hcovers
    cases hcovers
  have hright : (i.high : ℚ) / i.denominator ≤ Approximation.value ⟨digits + 1, power⟩ := by
    by_contra hlt
    rw [not_le] at hlt
    have hcovers : i.Covers (Approximation.value ⟨digits + 1, power⟩) := by
      unfold RoundingInterval.Covers
      split
      · exact ⟨(hlow.trans habove).le, hlt.le⟩
      · exact ⟨hlow.trans habove, hlt⟩
    rw [← RoundingInterval.contains_iff hden, hnotAbove] at hcovers
    cases hcovers
  linarith

/-! ## The shortest decimal -/

/-- Dropping trailing zeros keeps the number. -/
theorem stripZeros_value (bound : Nat) (a : Approximation) :
    (stripZeros bound a).value = a.value := by
  induction bound generalizing a with
  | zero => rfl
  | succ bound ih =>
    rw [stripZeros]
    split
    · rename_i h
      rw [ih]
      unfold Approximation.value
      have hdigits : (a.digits : ℚ) = ((a.digits / 10 : ℕ) : ℚ) * 10 := by
        have hnat : a.digits = a.digits / 10 * 10 := by omega
        exact_mod_cast hnat
      rw [zpow_add_one₀ (by norm_num), hdigits]
      ring
    · rfl

theorem significandAt_lt (magnitude : Nat) :
    significandAt magnitude < 2 * Binary64.fractionModulus := by
  have hfraction : magnitude % Binary64.fractionModulus < Binary64.fractionModulus :=
    Nat.mod_lt _ fractionModulus_pos
  unfold significandAt
  split <;> omega

/-- In quarters of the spacing at a number, its interval reaches from one or two below the number
to two above it; one only at a power of two. -/
theorem RoundingInterval.exists_ends {x : Binary64} (h : x.mantissa ≠ 0) :
    ∃ quarter below : ℚ, 0 < quarter ∧ (below = 2 ∨ below = 1 ∧ x.mantissa = 2 ^ 52) ∧
      ((RoundingInterval.of x).low : ℚ) / (RoundingInterval.of x).denominator =
        (4 * x.mantissa - below) * quarter ∧
      ((RoundingInterval.of x).value : ℚ) / (RoundingInterval.of x).denominator =
        4 * x.mantissa * quarter ∧
      ((RoundingInterval.of x).high : ℚ) / (RoundingInterval.of x).denominator =
        (4 * x.mantissa + 2) * quarter := by
  have hvalue := RoundingInterval.value_eq x
  have hhigh := RoundingInterval.high_eq x
  have hlow := RoundingInterval.low_eq x
  unfold upperUnits at hhigh
  unfold lowerUnits at hlow
  rw [← Binary64.mantissa_eq] at hvalue hhigh hlow
  have hbelow : (if x.mantissa = Binary64.fractionModulus ∧ 0 < doublings x.magnitude then 1 else 2)
      ≤ 4 * x.mantissa := by
    split <;> omega
  rw [Nat.cast_mul, Nat.cast_sub hbelow] at hlow
  refine ⟨((2 ^ doublings x.magnitude : ℕ) : ℚ) * leastQuarter,
    ((if x.mantissa = Binary64.fractionModulus ∧ 0 < doublings x.magnitude then 1 else 2 : ℕ) : ℚ),
    mul_pos (by positivity) leastQuarter_pos, ?_, ?_, ?_, ?_⟩
  · split
    · rename_i hhalved
      exact .inr ⟨by norm_num, hhalved.1⟩
    · exact .inl (by norm_num)
  · rw [hlow]
    push_cast
    ring
  · rw [hvalue]
    push_cast
    ring
  · rw [hhigh]
    push_cast
    ring

/-- On the grid sixteen places below the leading digit some point lies in the interval. -/
theorem RoundingInterval.finest_isSome {x : Binary64} (h : x.mantissa ≠ 0) :
    ((RoundingInterval.of x).onGrid (leadingExponent (RoundingInterval.of x).value
      (RoundingInterval.of x).denominator - 16)).isSome := by
  have hden := RoundingInterval.denominator_of_pos x
  obtain ⟨quarter, below, hquarter, hbelow, hlow, hvalue, hhigh⟩ := RoundingInterval.exists_ends h
  have hmantissa : (1 : ℚ) ≤ x.mantissa := by
    exact_mod_cast Nat.one_le_iff_ne_zero.mpr h
  have hleading : 0 < (RoundingInterval.of x).value := by
    rcases Nat.eq_zero_or_pos (RoundingInterval.of x).value with hzero | hpos
    · rw [hzero, Nat.cast_zero, zero_div] at hvalue
      have hproduct := mul_pos (by linarith : (0 : ℚ) < 4 * x.mantissa) hquarter
      linarith
    · exact hpos
  have hpower := zpow_leadingExponent_le hleading hden
  rw [hvalue] at hpower
  have hsmall : (x.mantissa : ℚ) < 9007199254740992 := by
    have hlt := significandAt_lt x.magnitude
    rw [← Binary64.mantissa_eq] at hlt
    exact_mod_cast (show x.mantissa < 9007199254740992 from hlt)
  have hone : 1 ≤ below := by
    rcases hbelow with rfl | ⟨rfl, _⟩ <;> norm_num
  -- The width in quarters, of which the number has fewer than the grid divides it into.
  have hwidth : 4 * (x.mantissa : ℚ) < (below + 2) * 10 ^ (16 : ℕ) := by
    rcases hbelow with rfl | ⟨rfl, hhalved⟩
    · linarith
    · rw [hhalved]
      norm_num
  refine RoundingInterval.onGrid_isSome hden ?_ ?_ ?_
  · rw [hlow, hvalue]
    exact mul_lt_mul_of_pos_right (by linarith) hquarter
  · rw [hvalue, hhigh]
    exact mul_lt_mul_of_pos_right (by linarith) hquarter
  · rw [hlow, hhigh, zpow_sub₀ (by norm_num), div_lt_iff₀ (by norm_num)]
    calc (10 : ℚ) ^ leadingExponent (RoundingInterval.of x).value (RoundingInterval.of x).denominator
        ≤ 4 * x.mantissa * quarter := hpower
      _ < (below + 2) * 10 ^ (16 : ℕ) * quarter := mul_lt_mul_of_pos_right hwidth hquarter
      _ = ((4 * x.mantissa + 2) * quarter - (4 * x.mantissa - below) * quarter) *
          10 ^ (16 : ℤ) := by
        rw [show ((10 : ℚ) ^ (16 : ℤ)) = 10 ^ (16 : ℕ) from zpow_natCast 10 16]
        ring

/-- The shortest decimal of a positive finite number lies in the interval of the number. -/
theorem RoundingInterval.covers_shortest {x : Binary64} (h : x.mantissa ≠ 0) :
    (RoundingInterval.of x).Covers (shortest x).value := by
  unfold shortest
  simp only
  rw [stripZeros_value, ← RoundingInterval.contains_iff (RoundingInterval.denominator_of_pos x)]
  generalize hfound : (List.range 17).findSome? (fun n => (RoundingInterval.of x).onGrid
    (leadingExponent (RoundingInterval.of x).value (RoundingInterval.of x).denominator - (n : ℕ))) =
    found
  cases found with
  | some a =>
    obtain ⟨n, _, ha⟩ := List.exists_of_findSome?_eq_some hfound
    exact RoundingInterval.contains_of_onGrid ha
  | none =>
    have hfinest := RoundingInterval.finest_isSome h
    have hnone := List.findSome?_eq_none_iff.mp hfound 16 (by simp)
    rw [Nat.cast_ofNat] at hnone
    rw [hnone] at hfinest
    cases hfinest

/-- The shortest decimal of a positive finite number is positive. -/
theorem shortest_value_pos {x : Binary64} (h : x.mantissa ≠ 0) : 0 < (shortest x).value := by
  have hcovers := RoundingInterval.covers_shortest h
  obtain ⟨quarter, below, hquarter, hbelow, hlow, _, _⟩ := RoundingInterval.exists_ends h
  have hmantissa : (1 : ℚ) ≤ x.mantissa := by
    exact_mod_cast Nat.one_le_iff_ne_zero.mpr h
  have hpos : 0 < (4 * x.mantissa - below) * quarter := by
    refine mul_pos ?_ hquarter
    rcases hbelow with rfl | ⟨rfl, _⟩ <;> linarith
  unfold RoundingInterval.Covers at hcovers
  rw [hlow] at hcovers
  split at hcovers
  · exact hpos.trans_le hcovers.1
  · exact hpos.trans hcovers.1

/-- Numbers that are not zero have the same magnitude if they have the same shortest decimal. -/
theorem magnitude_eq_of_shortest {x y : Binary64} (hx : x.mantissa ≠ 0) (hy : y.mantissa ≠ 0)
    (h : (shortest x).value = (shortest y).value) : x.magnitude = y.magnitude := by
  have hcovers := RoundingInterval.covers_shortest hy
  rw [← h] at hcovers
  exact RoundingInterval.magnitude_eq_of_covers (RoundingInterval.covers_shortest hx) hcovers

end DesignTokens.Decimal
