import DesignTokens.Json.Printer
import DesignTokens.Proofs.Decimal.Shortest
import Mathlib.Data.List.TakeWhile
/-!
# Decimal texts tell their numbers

A decimal text is read as the rational that it stands for.  Every form in which a layout writes a
positive decimal stands for that decimal, so that the text of a number tells the number: its sign,
whether it is finite, and its digits.
-/

set_option autoImplicit false

namespace DesignTokens.Decimal

/-! ## Reading a decimal text -/

/-- The text before the first mark, and the text after it. -/
def splitAtMark (mark : Char) (cs : List Char) : List Char × List Char :=
  (cs.takeWhile (· ≠ mark), (cs.dropWhile (· ≠ mark)).drop 1)

theorem splitAtMark_append {mark : Char} {first : List Char} (h : mark ∉ first)
    (second : List Char) : splitAtMark mark (first ++ mark :: second) = (first, second) := by
  have hpass : ∀ c ∈ first, decide (c ≠ mark) = true := by
    intro c hc
    exact decide_eq_true fun heq => h (heq ▸ hc)
  unfold splitAtMark
  rw [List.takeWhile_append_of_pos hpass, List.dropWhile_append_of_pos hpass]
  simp

theorem splitAtMark_of_not_mem {mark : Char} {cs : List Char} (h : mark ∉ cs) :
    splitAtMark mark cs = (cs, []) := by
  have hpass : ∀ c ∈ cs, decide (c ≠ mark) = true := by
    intro c hc
    exact decide_eq_true fun heq => h (heq ▸ hc)
  unfold splitAtMark
  rw [List.takeWhile_eq_self_iff.mpr hpass, List.dropWhile_eq_nil_iff.mpr hpass]
  rfl

/-- The exponent that a sign and digits stand for. -/
def exponentOf : List Char → ℤ
  | '-' :: digits => -(Nat.ofDigitChars 10 digits 0 : ℤ)
  | '+' :: digits => Nat.ofDigitChars 10 digits 0
  | _ => 0

/-- The number that digits with a point and an exponent stand for. -/
def numeral (cs : List Char) : ℚ :=
  let (mantissa, exponent) := splitAtMark 'e' cs
  let (whole, fraction) := splitAtMark '.' mantissa
  Nat.ofDigitChars 10 (whole ++ fraction) 0 * (10 : ℚ) ^ (exponentOf exponent - fraction.length)

/-! ## Characters of a decimal text -/

/-- The digits `0` to `9` only. -/
def AllDigits (cs : List Char) : Prop :=
  ∀ c ∈ cs, c.isDigit = true

theorem allDigits_toDigits (n : Nat) : AllDigits (Nat.toDigits 10 n) :=
  fun _ hc => Nat.isDigit_of_mem_toDigits (by decide) (by decide) hc

theorem allDigits_replicate_zero (n : Nat) : AllDigits (List.replicate n '0') := by
  intro c hc
  rw [List.eq_of_mem_replicate hc]
  rfl

theorem AllDigits.append {first second : List Char} (h₁ : AllDigits first)
    (h₂ : AllDigits second) : AllDigits (first ++ second) := by
  intro c hc
  cases List.mem_append.mp hc with
  | inl h => exact h₁ c h
  | inr h => exact h₂ c h

theorem AllDigits.sublist {part cs : List Char} (h : AllDigits cs) (hsub : part.Sublist cs) :
    AllDigits part :=
  fun c hc => h c (hsub.subset hc)

/-- A character that is no digit is not among digits. -/
theorem AllDigits.not_mem {cs : List Char} (h : AllDigits cs) {mark : Char}
    (hmark : mark.isDigit = false) : mark ∉ cs := by
  intro hc
  rw [h mark hc] at hmark
  cases hmark

/-! ## The forms of a number -/

/-- A sign and the digits of an exponent, filled up with zeros. -/
def exponentText (padding : Nat) (exponent : ℤ) : List Char :=
  (if exponent < 0 then '-' else '+') ::
    (List.replicate padding '0' ++ Nat.toDigits 10 exponent.natAbs)

/-- An exponent reads back, however it is filled up with zeros. -/
theorem exponentOf_exponentText (padding : Nat) (exponent : ℤ) :
    exponentOf (exponentText padding exponent) = exponent := by
  have hdigits : Nat.ofDigitChars 10
      (List.replicate padding '0' ++ Nat.toDigits 10 exponent.natAbs) 0 = exponent.natAbs := by
    rw [Nat.ofDigitChars_append, Nat.ofDigitChars_replicate_zero, Nat.mul_zero,
      Nat.ofDigitChars_ten_toDigits]
  unfold exponentText
  by_cases h : exponent < 0
  · rw [if_pos h, exponentOf, hdigits]
    omega
  · rw [if_neg h, exponentOf, hdigits]
    omega

/-- The forms of a decimal text without a sign, and the number that each stands for. -/
inductive Numeral : List Char → ℚ → Prop where
  | point (whole fraction : List Char) (hne : whole ≠ []) (hwhole : AllDigits whole)
      (hfraction : AllDigits fraction) :
      Numeral (whole ++ '.' :: fraction)
        (Nat.ofDigitChars 10 (whole ++ fraction) 0 * (10 : ℚ) ^ (-(fraction.length : ℤ)))
  | exponent (whole : List Char) (padding : Nat) (exponent : ℤ) (hne : whole ≠ [])
      (hwhole : AllDigits whole) :
      Numeral (whole ++ 'e' :: exponentText padding exponent)
        (Nat.ofDigitChars 10 whole 0 * (10 : ℚ) ^ exponent)
  | pointExponent (whole fraction : List Char) (padding : Nat) (exponent : ℤ) (hne : whole ≠ [])
      (hwhole : AllDigits whole) (hfraction : AllDigits fraction) :
      Numeral (whole ++ '.' :: fraction ++ 'e' :: exponentText padding exponent)
        (Nat.ofDigitChars 10 (whole ++ fraction) 0 * (10 : ℚ) ^ (exponent - fraction.length))

theorem not_mem_point {whole fraction : List Char} (hwhole : AllDigits whole)
    (hfraction : AllDigits fraction) : 'e' ∉ whole ++ '.' :: fraction := by
  rw [List.mem_append, List.mem_cons]
  rintro (hc | hc | hc)
  · exact hwhole.not_mem (by decide) hc
  · exact absurd hc (by decide)
  · exact hfraction.not_mem (by decide) hc

/-- Every form is read as the number that it stands for. -/
theorem Numeral.numeral_eq {cs : List Char} {value : ℚ} (h : Numeral cs value) :
    numeral cs = value := by
  unfold numeral
  cases h with
  | point whole fraction hne hwhole hfraction =>
    rw [splitAtMark_of_not_mem (not_mem_point hwhole hfraction)]
    simp only
    rw [splitAtMark_append (hwhole.not_mem (by decide))]
    simp [exponentOf]
  | exponent whole padding exponent hne hwhole =>
    rw [splitAtMark_append (hwhole.not_mem (by decide))]
    simp only
    rw [splitAtMark_of_not_mem (hwhole.not_mem (by decide)), exponentOf_exponentText]
    simp
  | pointExponent whole fraction padding exponent hne hwhole hfraction =>
    rw [splitAtMark_append (not_mem_point hwhole hfraction)]
    simp only
    rw [splitAtMark_append (hwhole.not_mem (by decide)), exponentOf_exponentText]

/-- The same text stands for one number only. -/
theorem Numeral.unique {cs : List Char} {first second : ℚ} (h₁ : Numeral cs first)
    (h₂ : Numeral cs second) : first = second :=
  h₁.numeral_eq.symm.trans h₂.numeral_eq

/-! ## The text of a positive decimal -/

/-- A layout with a point after whole numbers and the usual mark of an exponent. -/
structure Layout.Pointed (layout : Layout) : Prop where
  wholeMark : layout.wholeMark = ".0"
  exponentMark : layout.exponentMark = "e"

theorem zeros_toList (n : Nat) : (zeros n).toList = List.replicate n '0' :=
  String.toList_ofList

theorem numeral_of_eq {cs cs' : List Char} {value value' : ℚ} (h : Numeral cs value)
    (hcs : cs' = cs) (hvalue : value' = value) : Numeral cs' value' := by
  rw [hcs, hvalue]
  exact h

section Positive

variable {digits : List Char} {power : ℤ}

/-- Zeros between the point and the digits of a number below one. -/
theorem numeral_below_one (hdigits : AllDigits digits) (hpoint : digits.length + power ≤ 0) :
    Numeral ("0." ++ zeros (-(digits.length + power)).toNat ++ String.ofList digits).toList
      (Nat.ofDigitChars 10 digits 0 * (10 : ℚ) ^ power) := by
  refine numeral_of_eq (.point ['0']
    (List.replicate (-(digits.length + power)).toNat '0' ++ digits) (by simp)
    (allDigits_replicate_zero 1) ((allDigits_replicate_zero _).append hdigits)) ?_ ?_
  · simp [zeros_toList]
  · have hvalue : Nat.ofDigitChars 10
        (['0'] ++ (List.replicate (-(digits.length + power)).toNat '0' ++ digits)) 0 =
        Nat.ofDigitChars 10 digits 0 := by
      rw [List.singleton_append, Nat.ofDigitChars_cons, Nat.ofDigitChars_append]
      simp
    rw [hvalue]
    congr 2
    simp only [List.length_append, List.length_replicate]
    omega

/-- Zeros between the digits and the point of a whole number. -/
theorem numeral_whole (hne : digits ≠ []) (hdigits : AllDigits digits) (hpower : 0 ≤ power) :
    Numeral (String.ofList digits ++ zeros power.toNat ++ ".0").toList
      (Nat.ofDigitChars 10 digits 0 * (10 : ℚ) ^ power) := by
  refine numeral_of_eq (.point (digits ++ List.replicate power.toNat '0') ['0']
    (by simp [hne]) (hdigits.append (allDigits_replicate_zero _))
    (allDigits_replicate_zero 1)) ?_ ?_
  · simp [zeros_toList]
  · rw [Nat.ofDigitChars_append, Nat.ofDigitChars_append, Nat.ofDigitChars_replicate_zero]
    simp only [Nat.ofDigitChars_cons, Nat.ofDigitChars_nil, Nat.sub_self, Nat.add_zero]
    have hpow : (10 : ℚ) ^ power = ((10 ^ power.toNat : ℕ) : ℚ) := by
      rw [Nat.cast_pow, ← zpow_natCast, Int.toNat_of_nonneg hpower]
      norm_num
    rw [hpow]
    push_cast
    simp
    ring

/-- A point among the digits. -/
theorem numeral_among (hdigits : AllDigits digits) (hpoint : 0 < digits.length + power)
    (hpower : power < 0) :
    Numeral (String.ofList (digits.take (digits.length + power).toNat) ++ "." ++
      String.ofList (digits.drop (digits.length + power).toNat)).toList
      (Nat.ofDigitChars 10 digits 0 * (10 : ℚ) ^ power) := by
  refine numeral_of_eq (.point (digits.take (digits.length + power).toNat)
    (digits.drop (digits.length + power).toNat) ?_
    (hdigits.sublist (List.take_sublist _ _)) (hdigits.sublist (List.drop_sublist _ _))) ?_ ?_
  · intro hnil
    have hlength := congrArg List.length hnil
    rw [List.length_take, List.length_nil] at hlength
    omega
  · simp
  · rw [List.take_append_drop, List.length_drop]
    congr 2
    omega

/-- One digit before the point, and an exponent. -/
theorem numeral_scientific (width : Nat) (hne : digits ≠ []) (hdigits : AllDigits digits) :
    Numeral (String.ofList (digits.take 1) ++
        (if (digits.drop 1).isEmpty then "" else "." ++ String.ofList (digits.drop 1)) ++ "e" ++
        (if digits.length + power - 1 < 0 then "-" else "+") ++
        zeros (width - (Nat.toDigits 10 (digits.length + power - 1).natAbs).length) ++
        String.ofList (Nat.toDigits 10 (digits.length + power - 1).natAbs)).toList
      (Nat.ofDigitChars 10 digits 0 * (10 : ℚ) ^ power) := by
  have hpower : power = digits.length + power - 1 - (digits.drop 1).length := by
    have hlength := List.length_pos_iff.mpr hne
    rw [List.length_drop]
    omega
  have hsign : (if digits.length + power - 1 < 0 then "-" else "+").toList =
      [if digits.length + power - 1 < 0 then '-' else '+'] := by
    split <;> rfl
  generalize digits.length + power - 1 = exponent at hpower hsign ⊢
  rw [hpower]
  cases hrest : digits.drop 1 with
  | nil =>
    have hone : digits.take 1 = digits := by
      conv => rhs; rw [← List.take_append_drop 1 digits, hrest, List.append_nil]
    refine numeral_of_eq (.exponent digits (width - (Nat.toDigits 10 exponent.natAbs).length) exponent
      hne hdigits) ?_ ?_
    · simp [hone, hsign, exponentText, zeros_toList]
    · simp
  | cons second rest =>
    have hfraction : AllDigits (second :: rest) :=
      hrest ▸ hdigits.sublist (List.drop_sublist 1 digits)
    refine numeral_of_eq (.pointExponent (digits.take 1) (second :: rest)
      (width - (Nat.toDigits 10 exponent.natAbs).length) exponent (by simp [hne])
      (hdigits.sublist (List.take_sublist 1 digits)) hfraction) ?_ ?_
    · simp [hsign, exponentText, zeros_toList]
    · rw [← hrest, List.take_append_drop]

end Positive

/-- The text of a positive decimal stands for the decimal. -/
theorem Layout.Pointed.positive {layout : Layout} (h : layout.Pointed) (a : Approximation) :
    Numeral (layout.positive a).toList a.value := by
  have hdigits := allDigits_toDigits a.digits
  have hne : Nat.toDigits 10 a.digits ≠ [] := Nat.toDigits_ne_nil
  have hread : Nat.ofDigitChars 10 (Nat.toDigits 10 a.digits) 0 = a.digits :=
    Nat.ofDigitChars_ten_toDigits
  unfold Layout.positive Approximation.value
  rw [h.wholeMark, h.exponentMark]
  simp only
  generalize Nat.toDigits 10 a.digits = digits at *
  rw [← hread]
  split
  · split
    · rename_i hpoint
      exact numeral_below_one hdigits hpoint
    · split
      · rename_i hwhole
        have hzeros : (digits.length + a.power - digits.length).toNat = a.power.toNat := by
          congr 1
          omega
        rw [hzeros]
        exact numeral_whole hne hdigits (by omega)
      · rename_i hpoint hwhole
        exact numeral_among hdigits (by omega) (by omega)
  · exact numeral_scientific layout.exponentWidth hne hdigits

/-! ## The text of a number -/

theorem Numeral.exists_digit {cs : List Char} {value : ℚ} (h : Numeral cs value) :
    ∃ first rest, cs = first :: rest ∧ first.isDigit = true := by
  have hhead : ∀ whole : List Char, whole ≠ [] → AllDigits whole →
      ∃ first rest, whole = first :: rest ∧ first.isDigit = true := by
    intro whole hne hwhole
    obtain ⟨first, rest, rfl⟩ := List.exists_cons_of_ne_nil hne
    exact ⟨first, rest, rfl, hwhole first List.mem_cons_self⟩
  cases h with
  | point _ _ hne hwhole _ =>
    obtain ⟨first, rest, rfl, hfirst⟩ := hhead _ hne hwhole
    exact ⟨first, _, rfl, hfirst⟩
  | exponent _ _ _ hne hwhole =>
    obtain ⟨first, rest, rfl, hfirst⟩ := hhead _ hne hwhole
    exact ⟨first, _, rfl, hfirst⟩
  | pointExponent _ _ _ _ hne hwhole _ =>
    obtain ⟨first, rest, rfl, hfirst⟩ := hhead _ hne hwhole
    exact ⟨first, _, rfl, hfirst⟩

/-- A decimal text has a point or the mark of an exponent. -/
theorem Numeral.exists_mark {cs : List Char} {value : ℚ} (h : Numeral cs value) :
    '.' ∈ cs ∨ 'e' ∈ cs := by
  cases h with
  | point => exact .inl (by simp)
  | exponent => exact .inr (by simp)
  | pointExponent => exact .inl (by simp)

/-- A character of a decimal text: a digit, the point, the mark of an exponent, or a sign. -/
def isNumeralChar (c : Char) : Bool :=
  c.isDigit || c == '.' || c == 'e' || c == '+' || c == '-'

theorem AllDigits.isNumeralChar {cs : List Char} (h : AllDigits cs) :
    ∀ c ∈ cs, isNumeralChar c = true := by
  intro c hc
  simp [Decimal.isNumeralChar, h c hc]

theorem isNumeralChar_exponentText (padding : Nat) (exponent : ℤ) :
    ∀ c ∈ exponentText padding exponent, isNumeralChar c = true := by
  intro c hc
  cases List.mem_cons.mp hc with
  | inl hsign =>
    rw [hsign]
    split <;> decide
  | inr hdigits =>
    exact ((allDigits_replicate_zero _).append (allDigits_toDigits _)).isNumeralChar c hdigits

theorem Numeral.isNumeralChar {cs : List Char} {value : ℚ} (h : Numeral cs value) :
    ∀ c ∈ cs, isNumeralChar c = true := by
  intro c hc
  cases h with
  | point whole fraction _ hwhole hfraction =>
    rcases List.mem_append.mp hc with hc | hc
    · exact hwhole.isNumeralChar c hc
    · rcases List.mem_cons.mp hc with rfl | hc
      · rfl
      · exact hfraction.isNumeralChar c hc
  | exponent whole padding exponent _ hwhole =>
    rcases List.mem_append.mp hc with hc | hc
    · exact hwhole.isNumeralChar c hc
    · rcases List.mem_cons.mp hc with rfl | hc
      · rfl
      · exact isNumeralChar_exponentText padding exponent c hc
  | pointExponent whole fraction padding exponent _ hwhole hfraction =>
    rcases List.mem_append.mp hc with hc | hc
    · rcases List.mem_append.mp hc with hc | hc
      · exact hwhole.isNumeralChar c hc
      · rcases List.mem_cons.mp hc with rfl | hc
        · rfl
        · exact hfraction.isNumeralChar c hc
    · rcases List.mem_cons.mp hc with rfl | hc
      · rfl
      · exact isNumeralChar_exponentText padding exponent c hc

theorem pointed_floatLayout : Json.floatLayout.Pointed :=
  ⟨rfl, rfl⟩

/-- The text of a number without its sign. -/
def magnitudeText (x : Binary64) : List Char :=
  if !x.isFinite then "Infinity".toList
  else if x.mantissa = 0 then "0.0".toList
  else (Json.floatLayout.positive (shortest x)).toList

/-- The number that the text of a finite number stands for. -/
def shortestValue (x : Binary64) : ℚ :=
  if x.mantissa = 0 then 0 else (shortest x).value

theorem magnitudeText_of_infinite {x : Binary64} (h : x.isFinite = false) :
    magnitudeText x = "Infinity".toList := by
  simp [magnitudeText, h]

theorem numeral_magnitudeText {x : Binary64} (h : x.isFinite = true) :
    Numeral (magnitudeText x) (shortestValue x) := by
  unfold magnitudeText shortestValue
  rw [h]
  by_cases hzero : x.mantissa = 0
  · rw [if_neg (by decide), if_pos hzero, if_pos hzero]
    refine numeral_of_eq (.point ['0'] ['0'] (by simp)
      (allDigits_replicate_zero 1) (allDigits_replicate_zero 1)) rfl ?_
    simp [Nat.ofDigitChars_cons]
  · rw [if_neg (by decide), if_neg hzero, if_neg hzero]
    exact pointed_floatLayout.positive _

theorem render_floatLayout {x : Binary64} (h : x.isNaN = false) :
    (Json.floatLayout.render x).toList =
      (if x.isNegative then ['-'] else []) ++ magnitudeText x := by
  unfold Layout.render magnitudeText
  rw [h]
  cases x.isNegative <;> cases x.isFinite <;> by_cases hzero : x.mantissa = 0 <;>
    simp [hzero, Json.floatLayout]

/-! ## Words -/

theorem magnitude_lt (x : Binary64) : x.magnitude < Binary64.signModulus :=
  Nat.mod_lt _ (by decide)

/-- Fields of a word against the magnitude of infinity. -/
theorem field_cases {magnitude : Nat} (hlt : magnitude < Binary64.signModulus)
    (hfield : Binary64.exponentAllOnes ≤ magnitude / Binary64.fractionModulus) :
    magnitude / Binary64.fractionModulus = Binary64.exponentAllOnes ∧
      magnitude = Binary64.exponentAllOnes * Binary64.fractionModulus +
        magnitude % Binary64.fractionModulus := by
  have hsign : Binary64.signModulus = (2047 + 1) * Binary64.fractionModulus := by decide
  have hones : Binary64.exponentAllOnes = 2047 := rfl
  rw [hones] at hfield ⊢
  have hupper : magnitude / Binary64.fractionModulus < 2047 + 1 :=
    Nat.div_lt_of_lt_mul (by rw [Nat.mul_comm, ← hsign]; exact hlt)
  have heq : magnitude / Binary64.fractionModulus = 2047 := by omega
  refine ⟨heq, ?_⟩
  conv => lhs; rw [← Nat.div_add_mod magnitude Binary64.fractionModulus, heq]
  rw [Nat.mul_comm]

/-- A number without a finite value is infinite, or past infinity and no number. -/
theorem magnitude_of_infinite {x : Binary64} (hfinite : x.isFinite = false)
    (hnan : x.isNaN = false) :
    x.magnitude = Binary64.exponentAllOnes * Binary64.fractionModulus := by
  unfold Binary64.isFinite at hfinite
  rw [decide_eq_false_iff_not, not_lt] at hfinite
  obtain ⟨hfield, hsplit⟩ := field_cases (magnitude_lt x) hfinite
  unfold Binary64.isNaN at hnan
  have hones : (x.exponentField == Binary64.exponentAllOnes) = true := beq_iff_eq.mpr hfield
  rw [hones, Bool.true_and, bne_eq_false_iff_eq] at hnan
  rw [hsplit, show x.magnitude % Binary64.fractionModulus = 0 from hnan, Nat.add_zero]

/-- There is one NaN only. -/
theorem word_of_isNaN {x : Binary64} (h : x.isNaN = true) : x.word = Binary64.quietWord := by
  apply x.quiet_of_isNaNWord
  unfold Binary64.isNaN at h
  rw [Bool.and_eq_true, beq_iff_eq, bne_iff_ne] at h
  obtain ⟨hfield, hfraction⟩ := h
  obtain ⟨_, hsplit⟩ := field_cases (magnitude_lt x) (ge_of_eq hfield)
  have hpos : 0 < x.magnitude % Binary64.fractionModulus := Nat.pos_of_ne_zero hfraction
  have hlt : Binary64.exponentAllOnes * Binary64.fractionModulus < x.magnitude := by
    rw [hsplit]
    exact Nat.lt_add_of_pos_right hpos
  exact decide_eq_true hlt

theorem eq_of_word {x y : Binary64} (h : x.word = y.word) : x = y := by
  obtain ⟨word, _⟩ := x
  obtain ⟨word', _⟩ := y
  simp only at h
  subst h
  rfl

/-- Sign and magnitude make the word. -/
theorem eq_of_magnitude {x y : Binary64} (hsign : x.isNegative = y.isNegative)
    (hmagnitude : x.magnitude = y.magnitude) : x = y := by
  refine eq_of_word (UInt64.toNat_inj.mp ?_)
  have hx := x.word.toNat_lt
  have hy := y.word.toNat_lt
  have hmodulus : Binary64.signModulus = 9223372036854775808 := by decide
  unfold Binary64.isNegative at hsign
  unfold Binary64.magnitude at hmagnitude
  rw [hmodulus] at hsign hmagnitude
  rw [decide_eq_decide] at hsign
  omega

/-- A finite number is zero, or its shortest value is positive and tells its magnitude. -/
theorem magnitude_eq_of_shortestValue {x y : Binary64} (h : shortestValue x = shortestValue y) :
    x.magnitude = y.magnitude := by
  have hzero : ∀ z : Binary64, z.mantissa = 0 → z.magnitude = 0 := by
    intro z hz
    have hmodulus : Binary64.fractionModulus = 4503599627370496 := by decide
    rw [Binary64.mantissa_eq, significandAt, hmodulus] at hz
    split at hz <;> omega
  unfold shortestValue at h
  by_cases hx : x.mantissa = 0 <;> by_cases hy : y.mantissa = 0
  · rw [hzero x hx, hzero y hy]
  · rw [if_pos hx, if_neg hy] at h
    exact absurd h (shortest_value_pos hy).ne
  · rw [if_neg hx, if_pos hy] at h
    exact absurd h (shortest_value_pos hx).ne'
  · rw [if_neg hx, if_neg hy] at h
    exact magnitude_eq_of_shortest hx hy h

/-- The text without a sign tells the magnitude. -/
theorem magnitude_eq_of_magnitudeText {x y : Binary64} (hx : x.isNaN = false)
    (hy : y.isNaN = false) (h : magnitudeText x = magnitudeText y) : x.magnitude = y.magnitude := by
  cases hfx : x.isFinite <;> cases hfy : y.isFinite
  · rw [magnitude_of_infinite hfx hx, magnitude_of_infinite hfy hy]
  · obtain ⟨first, rest, hcons, hdigit⟩ := (numeral_magnitudeText hfy).exists_digit
    rw [magnitudeText_of_infinite hfx, hcons] at h
    rw [← (List.cons.inj h).1] at hdigit
    cases hdigit
  · obtain ⟨first, rest, hcons, hdigit⟩ := (numeral_magnitudeText hfx).exists_digit
    rw [magnitudeText_of_infinite hfy, hcons] at h
    rw [(List.cons.inj h).1] at hdigit
    cases hdigit
  · have hnumeral := numeral_magnitudeText hfy
    rw [← h] at hnumeral
    exact magnitude_eq_of_shortestValue ((numeral_magnitudeText hfx).unique hnumeral)

/-- The text without a sign begins with a digit, or is the word for infinity. -/
theorem magnitudeText_head (x : Binary64) :
    ∃ first rest, magnitudeText x = first :: rest ∧ (first.isDigit = true ∨ first = 'I') := by
  cases hfinite : x.isFinite with
  | false => exact ⟨'I', _, magnitudeText_of_infinite hfinite, .inr rfl⟩
  | true =>
    obtain ⟨first, rest, hcons, hdigit⟩ := (numeral_magnitudeText hfinite).exists_digit
    exact ⟨first, rest, hcons, .inl hdigit⟩

theorem render_of_isNaN {x : Binary64} (h : x.isNaN = true) :
    Json.floatLayout.render x = "NaN" := by
  simp [Layout.render, h, Json.floatLayout]

/-- The text of a number that is not NaN begins with a digit, a sign, or the word for infinity. -/
theorem render_head {x : Binary64} (h : x.isNaN = false) :
    ∃ first rest, (Json.floatLayout.render x).toList = first :: rest ∧
      (first.isDigit = true ∨ first = 'I' ∨ first = '-') := by
  obtain ⟨first, rest, hcons, hfirst⟩ := magnitudeText_head x
  rw [render_floatLayout h, hcons]
  cases x.isNegative with
  | false => exact ⟨first, rest, rfl, hfirst.imp_right .inl⟩
  | true => exact ⟨'-', first :: rest, rfl, .inr (.inr rfl)⟩

/-- The text of a number tells the number. -/
theorem floatLayout_render_injective {x y : Binary64}
    (h : Json.floatLayout.render x = Json.floatLayout.render y) : x = y := by
  have hword : ∀ z : Binary64, z.isNaN = false → Json.floatLayout.render z ≠ "NaN" := by
    intro z hz heq
    obtain ⟨first, rest, hcons, hfirst⟩ := render_head hz
    rw [heq] at hcons
    rw [← (List.cons.inj hcons).1] at hfirst
    rcases hfirst with hfirst | hfirst | hfirst <;> exact absurd hfirst (by decide)
  cases hx : x.isNaN <;> cases hy : y.isNaN
  · have htext := congrArg String.toList h
    rw [render_floatLayout hx, render_floatLayout hy] at htext
    obtain ⟨first, rest, hcons, hfirst⟩ := magnitudeText_head x
    obtain ⟨first', rest', hcons', hfirst'⟩ := magnitudeText_head y
    have hne : ∀ c : Char, (c.isDigit = true ∨ c = 'I') → c ≠ '-' := by
      rintro c (hdigit | rfl)
      · intro heq
        rw [heq] at hdigit
        cases hdigit
      · decide
    have hsign : x.isNegative = y.isNegative := by
      rw [hcons, hcons'] at htext
      cases hnx : x.isNegative <;> cases hny : y.isNegative <;> simp only [hnx, hny] at htext
      · rfl
      · exact absurd (List.cons.inj htext).1 (hne first hfirst)
      · exact absurd (List.cons.inj htext).1.symm (hne first' hfirst')
      · rfl
    rw [hsign, List.append_cancel_left_eq] at htext
    exact eq_of_magnitude hsign (magnitude_eq_of_magnitudeText hx hy htext)
  · exact absurd (h.trans (render_of_isNaN hy)) (hword x hx)
  · exact absurd (h.symm.trans (render_of_isNaN hx)) (hword y hy)
  · exact eq_of_word ((word_of_isNaN hx).trans (word_of_isNaN hy).symm)

end DesignTokens.Decimal
