/-!
# Double precision numbers

A number of the IEEE 754 binary64 format as its 64-bit word, with exact decoding into
`mantissa · 2 ^ exponent` and correctly rounded reading of decimal numbers.  All arithmetic is on
`Nat` and `Int`.
-/

set_option autoImplicit false

namespace DesignTokens

namespace Binary64

/-- The weight of the exponent field: the significand's fraction has 52 bits. -/
def fractionModulus : Nat := Nat.pow 2 52

/-- The weight of the sign bit. -/
def signModulus : Nat := Nat.pow 2 63

/-- The exponent field of infinities and NaNs. -/
def exponentAllOnes : Nat := 2047

/-- Whether a word stands for no number: past the infinity of its sign. -/
def isNaNWord (word : UInt64) : Bool :=
  exponentAllOnes * fractionModulus < word.toNat % signModulus

/-- The word of the quiet NaN. -/
def quietWord : UInt64 := 0x7FF8000000000000

end Binary64

/-- A binary64 number, identified by its word: two zeros and two infinities differ.  No operation
looks into a NaN, so the quiet one stands for all of them. -/
structure Binary64 where
  word : UInt64
  quiet_of_isNaNWord : Binary64.isNaNWord word → word = Binary64.quietWord
  deriving DecidableEq, Repr

namespace Binary64

instance : Inhabited Binary64 := ⟨⟨0, by decide⟩⟩

/-- The word without its sign bit. -/
def magnitude (x : Binary64) : Nat :=
  x.word.toNat % signModulus

/-- Whether the sign bit is set; it is for `-0.0`. -/
def isNegative (x : Binary64) : Bool :=
  signModulus ≤ x.word.toNat

/-- The biased exponent field. -/
def exponentField (x : Binary64) : Nat :=
  x.magnitude / fractionModulus

/-- The fraction field. -/
def fractionField (x : Binary64) : Nat :=
  x.magnitude % fractionModulus

/-- Neither infinite nor NaN. -/
def isFinite (x : Binary64) : Bool :=
  x.exponentField < exponentAllOnes

/-- The all-ones exponent with a fraction. -/
def isNaN (x : Binary64) : Bool :=
  x.exponentField == exponentAllOnes && x.fractionField != 0

/-- The integer significand of a finite number. -/
def mantissa (x : Binary64) : Nat :=
  if x.exponentField = 0 then x.fractionField else fractionModulus + x.fractionField

/-- The power of two that the significand counts: a finite number's absolute value is
`mantissa · 2 ^ exponent`. -/
def exponent (x : Binary64) : Int :=
  if x.exponentField = 0 then -1074 else (x.exponentField : Int) - 1075

/-- Numerator and denominator of a finite number's absolute value. -/
def absFraction (x : Binary64) : Nat × Nat :=
  if 0 ≤ x.exponent then (x.mantissa * Nat.pow 2 x.exponent.toNat, 1)
  else (x.mantissa, Nat.pow 2 (-x.exponent).toNat)

/-- The integer that a finite number is equal to, if it is one. -/
def toInt? (x : Binary64) : Option Int :=
  let (num, den) := x.absFraction
  if x.isFinite && num % den == 0 then
    let n : Int := ((num / den : Nat) : Int)
    some (if x.isNegative then -n else n)
  else
    none

/-- The quiet NaN. -/
def nan : Binary64 :=
  ⟨quietWord, fun _ => rfl⟩

/-- The number of a word. -/
def ofWord (word : UInt64) : Binary64 :=
  if h : isNaNWord word then nan else ⟨word, fun hnan => absurd hnan h⟩

/-- A number from its sign and the rest of its word. -/
def ofMagnitude (negative : Bool) (magnitude : Nat) : Binary64 :=
  ofWord (UInt64.ofNat (if negative then signModulus + magnitude else magnitude))

/-- Infinity of a sign. -/
def infinite (negative : Bool) : Binary64 :=
  ofMagnitude negative (exponentAllOnes * fractionModulus)

/-- The integer nearest to `num / den`; a half goes to the even neighbour. -/
def roundHalfEven (num den : Nat) : Nat :=
  let floor := num / den
  let twice := 2 * (num % den)
  if twice > den ∨ (twice = den ∧ floor % 2 = 1) then floor + 1 else floor

/-- The nearest number of a sign to the positive fraction `num / den`; ties go to the even
significand, and what rounds past the largest finite number is infinite.  With the significand
counted in units of `2 ^ unit`, its carry into the exponent field is the addition of the word. -/
def ofFraction (negative : Bool) (num den : Nat) : Binary64 :=
  let guess : Int := (Nat.log2 num : Int) - (Nat.log2 den : Int) - 53
  let scaled (unit : Int) : Nat × Nat :=
    if 0 ≤ unit then (num, den * Nat.pow 2 unit.toNat) else (num * Nat.pow 2 (-unit).toNat, den)
  let (guessNum, guessDen) := scaled guess
  let exact := if guessNum / guessDen ≥ 2 * fractionModulus then guess + 1 else guess
  let unit := max exact (-1074)
  let (unitNum, unitDen) := scaled unit
  let word := (unit + 1074).toNat * fractionModulus + roundHalfEven unitNum unitDen
  if word ≥ exponentAllOnes * fractionModulus then infinite negative else ofMagnitude negative word

/-- The nearest number to `digits · 10 ^ power`.  Numbers out of reach of any finite or nonzero
result are settled by the count of digits, before a power of ten is formed. -/
def ofDecimal (negative : Bool) (digits : Nat) (power : Int) : Binary64 :=
  if digits = 0 then ofMagnitude negative 0
  else
    let places : Int := (Nat.toDigits 10 digits).length + power
    if places > 310 then infinite negative
    else if places < -330 then ofMagnitude negative 0
    else if 0 ≤ power then ofFraction negative (digits * Nat.pow 10 power.toNat) 1
    else ofFraction negative digits (Nat.pow 10 (-power).toNat)

/-- The nearest number to an integer. -/
def ofInt (n : Int) : Binary64 :=
  ofDecimal (n < 0) n.natAbs 0

/-! ## Arithmetic -/

/-- A number with its sign bit turned over. -/
def negate (x : Binary64) : Binary64 :=
  ofMagnitude (!x.isNegative) x.magnitude

/-- The nearest number to the sum of two numbers without a sign. -/
def plus (x y : Binary64) : Binary64 :=
  if x.isNaN || y.isNaN then nan
  else if !x.isFinite || !y.isFinite then infinite false
  else
    let (a, b) := x.absFraction
    let (c, d) := y.absFraction
    if a * d + c * b = 0 then ofMagnitude false 0 else ofFraction false (a * d + c * b) (b * d)

/-- The nearest number to the product of two numbers without a sign, of which the second is finite
and not zero. -/
def times (x y : Binary64) : Binary64 :=
  if x.isNaN || y.isNaN then nan
  else if !x.isFinite || !y.isFinite then infinite false
  else
    let (a, b) := x.absFraction
    let (c, d) := y.absFraction
    if a * c = 0 then ofMagnitude false 0 else ofFraction false (a * c) (b * d)

end Binary64

end DesignTokens
