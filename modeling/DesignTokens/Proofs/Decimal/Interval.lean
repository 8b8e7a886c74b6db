import DesignTokens.Decimal.Shortest
import Mathlib.Algebra.Order.Field.Power
import Mathlib.Order.Monotone.Basic
import Mathlib.Tactic.FieldSimp
import Mathlib.Tactic.Linarith
import Mathlib.Tactic.Positivity
import Mathlib.Tactic.Ring
/-!
# Rounding intervals

The reals that round to a finite number, as an interval of rationals.  The interval of a number ends
where that of the next one begins, and of two neighbours only one owns the point between them, so a
real in the interval of a number determines the number.
-/

set_option autoImplicit false

namespace DesignTokens.Decimal

/-- The number that a decimal stands for. -/
def Approximation.value (a : Approximation) : ℚ :=
  a.digits * (10 : ℚ) ^ a.power

/-- Whether a rational lies in the interval. -/
def RoundingInterval.Covers (i : RoundingInterval) (r : ℚ) : Prop :=
  if i.closed then (i.low : ℚ) / i.denominator ≤ r ∧ r ≤ (i.high : ℚ) / i.denominator
  else (i.low : ℚ) / i.denominator < r ∧ r < (i.high : ℚ) / i.denominator

/-- A power is the quotient of two powers of which its sign selects one. -/
theorem zpow_eq_pow_toNat_div (base : ℚ) (n : ℤ) :
    base ^ n = base ^ n.toNat / base ^ (-n).toNat := by
  cases le_total 0 n with
  | inl hn =>
    have hneg : (-n).toNat = 0 := by omega
    rw [hneg, pow_zero, div_one, ← zpow_natCast, Int.toNat_of_nonneg hn]
  | inr hn =>
    have hpos : n.toNat = 0 := by omega
    have hneg : n = -((-n).toNat : ℤ) := by omega
    conv => lhs; rw [hneg]
    rw [hpos, pow_zero, one_div, zpow_neg, zpow_natCast]

theorem Approximation.value_eq_div (a : Approximation) :
    a.value = ((a.digits * 10 ^ a.power.toNat : ℕ) : ℚ) / ((10 ^ (-a.power).toNat : ℕ) : ℚ) := by
  rw [Approximation.value, zpow_eq_pow_toNat_div 10 a.power]
  push_cast
  ring

/-- The test on natural numbers decides membership in the interval. -/
theorem RoundingInterval.contains_iff {i : RoundingInterval} (hden : 0 < i.denominator)
    (a : Approximation) : i.contains a = true ↔ i.Covers a.value := by
  have hi : (0 : ℚ) < i.denominator := by exact_mod_cast hden
  have hdown : (0 : ℚ) < ((10 ^ (-a.power).toNat : ℕ) : ℚ) := by positivity
  unfold RoundingInterval.contains RoundingInterval.Covers
  rw [Approximation.value_eq_div]
  simp only [Nat.pow_eq]
  cases hclosed : i.closed with
  | true =>
    simp only [if_true, Bool.and_eq_true, decide_eq_true_eq]
    rw [div_le_div_iff₀ hi hdown, div_le_div_iff₀ hdown hi]
    norm_cast
  | false =>
    simp only [if_false, Bool.and_eq_true, decide_eq_true_eq, Bool.false_eq_true]
    rw [div_lt_div_iff₀ hi hdown, div_lt_div_iff₀ hdown hi]
    norm_cast

/-! ## Intervals by magnitude -/

/-- The significand of the number of a magnitude. -/
def significandAt (magnitude : Nat) : Nat :=
  if magnitude / Binary64.fractionModulus = 0 then magnitude % Binary64.fractionModulus
  else Binary64.fractionModulus + magnitude % Binary64.fractionModulus

/-- How often the spacing of the numbers has doubled up to a magnitude. -/
def doublings (magnitude : Nat) : Nat :=
  magnitude / Binary64.fractionModulus - 1

/-- A quarter of the least spacing of the numbers. -/
def leastQuarter : ℚ :=
  (2 : ℚ) ^ (-1076 : ℤ)

theorem leastQuarter_pos : 0 < leastQuarter :=
  zpow_pos (by norm_num) _

/-- The lower end of the interval of a magnitude, in quarters of the least spacing. -/
def lowerUnits (magnitude : Nat) : Nat :=
  (4 * significandAt magnitude -
    if significandAt magnitude = Binary64.fractionModulus ∧ 0 < doublings magnitude then 1 else 2) *
      2 ^ doublings magnitude

/-- The upper end of the interval of a magnitude, in quarters of the least spacing. -/
def upperUnits (magnitude : Nat) : Nat :=
  (4 * significandAt magnitude + 2) * 2 ^ doublings magnitude

theorem Binary64.mantissa_eq (x : Binary64) : x.mantissa = significandAt x.magnitude := rfl

theorem Binary64.exponent_eq (x : Binary64) : x.exponent = (doublings x.magnitude : ℤ) - 1074 := by
  unfold Binary64.exponent doublings
  have hfield : x.exponentField = x.magnitude / Binary64.fractionModulus := rfl
  by_cases h : x.exponentField = 0
  · rw [if_pos h, ← hfield, h]
    norm_num
  · rw [if_neg h, ← hfield]
    omega

theorem fractionModulus_pos : 0 < Binary64.fractionModulus := by
  decide

theorem significandAt_split (field : Nat) {fraction : Nat}
    (h : fraction < Binary64.fractionModulus) :
    significandAt (Binary64.fractionModulus * field + fraction) =
      if field = 0 then fraction else Binary64.fractionModulus + fraction := by
  unfold significandAt
  rw [Nat.mul_add_div fractionModulus_pos, Nat.mul_add_mod, Nat.div_eq_of_lt h,
    Nat.mod_eq_of_lt h, Nat.add_zero]

theorem doublings_split (field : Nat) {fraction : Nat}
    (h : fraction < Binary64.fractionModulus) :
    doublings (Binary64.fractionModulus * field + fraction) = field - 1 := by
  unfold doublings
  rw [Nat.mul_add_div fractionModulus_pos, Nat.div_eq_of_lt h, Nat.add_zero]

/-- The interval of a magnitude ends where that of the next one begins. -/
theorem lowerUnits_succ (magnitude : Nat) : lowerUnits (magnitude + 1) = upperUnits magnitude := by
  have hpos := fractionModulus_pos
  have hfraction : magnitude % Binary64.fractionModulus < Binary64.fractionModulus :=
    Nat.mod_lt _ hpos
  have hsplit := Nat.div_add_mod magnitude Binary64.fractionModulus
  generalize magnitude % Binary64.fractionModulus = fraction at hfraction hsplit
  generalize magnitude / Binary64.fractionModulus = field at hsplit
  subst hsplit
  unfold lowerUnits upperUnits
  rw [significandAt_split field hfraction, doublings_split field hfraction]
  by_cases hcarry : fraction + 1 < Binary64.fractionModulus
  · rw [Nat.add_assoc, significandAt_split field hcarry, doublings_split field hcarry]
    by_cases hfield : field = 0
    · simp only [hfield, if_true]
      rw [if_neg (by omega)]
      congr 1
    · simp only [hfield, if_false]
      rw [if_neg (by omega)]
      congr 1
  · -- The fraction overflows into the exponent field, and the spacing doubles unless it was least.
    have hnext : Binary64.fractionModulus * field + fraction + 1 =
        Binary64.fractionModulus * (field + 1) + 0 := by
      rw [Nat.mul_add]
      omega
    rw [hnext, significandAt_split (field + 1) hpos, doublings_split (field + 1) hpos]
    cases field with
    | zero =>
      simp only [if_true]
      norm_num
      omega
    | succ below =>
      simp only [Nat.succ_ne_zero, if_false]
      rw [if_pos (by omega)]
      simp only [Nat.add_sub_cancel, pow_succ]
      rw [Nat.mul_comm (2 ^ below) 2, ← Nat.mul_assoc]
      congr 1
      omega

theorem lowerUnits_lt_upperUnits (magnitude : Nat) :
    lowerUnits magnitude < upperUnits magnitude := by
  unfold lowerUnits upperUnits
  refine Nat.mul_lt_mul_of_pos_right ?_ (by positivity)
  split <;> omega

theorem upperUnits_strictMono : StrictMono upperUnits := by
  refine strictMono_nat_of_lt_succ fun magnitude => ?_
  rw [← lowerUnits_succ]
  exact lowerUnits_lt_upperUnits (magnitude + 1)

/-- The interval of a smaller magnitude ends before that of a larger one begins, or where it begins
if the two are neighbours. -/
theorem upperUnits_le_lowerUnits {first second : Nat} (h : first < second) :
    upperUnits first ≤ lowerUnits second ∧
      (upperUnits first = lowerUnits second → second = first + 1) := by
  obtain ⟨before, rfl⟩ := Nat.exists_eq_succ_of_ne_zero (Nat.ne_zero_of_lt h)
  rw [Nat.succ_eq_add_one, lowerUnits_succ]
  refine ⟨upperUnits_strictMono.monotone (Nat.le_of_lt_succ h), fun heq => ?_⟩
  rw [upperUnits_strictMono.injective heq]

/-- A significand and its magnitude are even together. -/
theorem significandAt_mod_two (magnitude : Nat) : significandAt magnitude % 2 = magnitude % 2 := by
  have hmodulus : Binary64.fractionModulus = 4503599627370496 := by decide
  unfold significandAt
  rw [hmodulus]
  split <;> omega

/-! ## The interval of a number -/

theorem RoundingInterval.denominator_of_pos (x : Binary64) :
    0 < (RoundingInterval.of x).denominator := by
  unfold RoundingInterval.of
  simp only
  split
  · exact Nat.one_pos
  · exact Nat.pow_pos (by decide)

/-- A quarter of the spacing at a number, as its interval counts it. -/
theorem RoundingInterval.quarter_eq (x : Binary64) :
    ((if 0 ≤ x.exponent - 2 then Nat.pow 2 (x.exponent - 2).toNat else 1 : ℕ) : ℚ) /
        (RoundingInterval.of x).denominator =
      ((2 ^ doublings x.magnitude : ℕ) : ℚ) * leastQuarter := by
  have hpower : (2 : ℚ) ^ (x.exponent - 2) =
      ((2 ^ doublings x.magnitude : ℕ) : ℚ) * leastQuarter := by
    rw [Binary64.exponent_eq, leastQuarter, Nat.cast_pow, Nat.cast_ofNat, ← zpow_natCast,
      ← zpow_add₀ (by norm_num)]
    congr 1
    omega
  rw [← hpower, zpow_eq_pow_toNat_div 2 (x.exponent - 2)]
  unfold RoundingInterval.of
  simp only [Nat.pow_eq]
  by_cases h : 0 ≤ x.exponent - 2
  · have hneg : (-(x.exponent - 2)).toNat = 0 := by omega
    rw [if_pos h, if_pos h, hneg]
    norm_num
  · have hpos : (x.exponent - 2).toNat = 0 := by omega
    rw [if_neg h, if_neg h, hpos]
    norm_num

theorem RoundingInterval.low_eq (x : Binary64) :
    ((RoundingInterval.of x).low : ℚ) / (RoundingInterval.of x).denominator =
      lowerUnits x.magnitude * leastQuarter := by
  have hspread : x.exponent > -1074 ↔ 0 < doublings x.magnitude := by
    rw [Binary64.exponent_eq]
    omega
  unfold lowerUnits
  rw [Nat.cast_mul, mul_assoc, ← RoundingInterval.quarter_eq, ← mul_div_assoc, ← Nat.cast_mul]
  unfold RoundingInterval.of
  simp only [hspread, Binary64.mantissa_eq]

theorem RoundingInterval.high_eq (x : Binary64) :
    ((RoundingInterval.of x).high : ℚ) / (RoundingInterval.of x).denominator =
      upperUnits x.magnitude * leastQuarter := by
  unfold upperUnits
  rw [Nat.cast_mul, mul_assoc, ← RoundingInterval.quarter_eq, ← mul_div_assoc, ← Nat.cast_mul]
  rfl

/-- The number itself, in quarters of the least spacing. -/
theorem RoundingInterval.value_eq (x : Binary64) :
    ((RoundingInterval.of x).value : ℚ) / (RoundingInterval.of x).denominator =
      ((4 * significandAt x.magnitude * 2 ^ doublings x.magnitude : ℕ) : ℚ) * leastQuarter := by
  rw [Nat.cast_mul, mul_assoc, ← RoundingInterval.quarter_eq, ← mul_div_assoc, ← Nat.cast_mul]
  rfl

/-- No rational lies in the intervals of two magnitudes. -/
theorem RoundingInterval.not_covers_of_lt {x y : Binary64} {r : ℚ}
    (h : x.magnitude < y.magnitude) (hx : (RoundingInterval.of x).Covers r) :
    ¬ (RoundingInterval.of y).Covers r := by
  intro hy
  obtain ⟨hends, hneighbours⟩ := upperUnits_le_lowerUnits h
  have hends' : (upperUnits x.magnitude : ℚ) * leastQuarter ≤
      lowerUnits y.magnitude * leastQuarter :=
    mul_le_mul_of_nonneg_right (by exact_mod_cast hends) leastQuarter_pos.le
  unfold RoundingInterval.Covers at hx hy
  rw [RoundingInterval.low_eq, RoundingInterval.high_eq] at hx hy
  have hle : r ≤ upperUnits x.magnitude * leastQuarter := by
    split at hx
    · exact hx.2
    · exact hx.2.le
  have hge : lowerUnits y.magnitude * leastQuarter ≤ r := by
    split at hy
    · exact hy.1
    · exact hy.1.le
  have hclosed : ∀ z : Binary64, (RoundingInterval.of z).closed = true ↔ z.magnitude % 2 = 0 := by
    intro z
    rw [← significandAt_mod_two]
    exact decide_eq_true_iff
  -- Only a common end point is left, and only one of two neighbours owns it.
  have hsame : upperUnits x.magnitude = lowerUnits y.magnitude := by
    have hreal := le_antisymm hends' (hge.trans hle)
    exact_mod_cast mul_right_cancel₀ leastQuarter_pos.ne' hreal
  have hsucc := hneighbours hsame
  by_cases heven : x.magnitude % 2 = 0
  · have hodd : ¬ (RoundingInterval.of y).closed = true := by
      rw [hclosed]
      omega
    rw [if_neg hodd] at hy
    exact absurd hle (not_le.mpr (lt_of_le_of_lt hends' hy.1))
  · have hodd : ¬ (RoundingInterval.of x).closed = true := by
      rw [hclosed]
      exact heven
    rw [if_neg hodd] at hx
    exact absurd hge (not_le.mpr (lt_of_lt_of_le hx.2 hends'))

/-- A rational in the interval of a number determines the magnitude of the number. -/
theorem RoundingInterval.magnitude_eq_of_covers {x y : Binary64} {r : ℚ}
    (hx : (RoundingInterval.of x).Covers r) (hy : (RoundingInterval.of y).Covers r) :
    x.magnitude = y.magnitude := by
  rcases Nat.lt_trichotomy x.magnitude y.magnitude with hlt | heq | hgt
  · exact absurd hy (RoundingInterval.not_covers_of_lt hlt hx)
  · exact heq
  · exact absurd hx (RoundingInterval.not_covers_of_lt hgt hy)

end DesignTokens.Decimal
