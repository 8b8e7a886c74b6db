import DesignTokens.Decimal.Binary64
/-!
# Shortest decimal text

The decimal with the fewest digits that reads back as a given number, and its layout as text.
The digits are found by trying grids of one to seventeen digits: of the two neighbours of the exact
value on a grid, the nearer one that lies within the interval of reals rounding to the number wins.
-/

set_option autoImplicit false

namespace DesignTokens.Decimal

/-- A positive decimal `digits · 10 ^ power`. -/
structure Approximation where
  digits : Nat
  power : Int
  deriving DecidableEq, Repr, Inhabited

/-- How a decimal is laid out as text. -/
structure Layout where
  /-- The least decimal exponent that is written without an exponent mark. -/
  positionalFrom : Int
  /-- The first decimal exponent past those that are written without an exponent mark. -/
  positionalBelow : Int
  /-- What follows a whole number in positional form. -/
  wholeMark : String
  /-- The exponent mark. -/
  exponentMark : String
  /-- The least number of exponent digits. -/
  exponentWidth : Nat
  /-- The texts of infinity and of NaN. -/
  infinity : String
  notANumber : String
  deriving Repr

/-- The number of decimal digits of a number; zero has one. -/
def digitCount (n : Nat) : Nat :=
  (Nat.toDigits 10 n).length

/-- The decimal exponent of the positive fraction `num / den`: the `e` with
`10 ^ e ≤ num / den < 10 ^ (e + 1)`. -/
def leadingExponent (num den : Nat) : Int :=
  if den ≤ num then (digitCount (num / den) : Int) - 1
  else -(digitCount ((den + num - 1) / num - 1) : Int)

/-- The interval of reals that round to a number, scaled by a common denominator. -/
structure RoundingInterval where
  low : Nat
  value : Nat
  high : Nat
  denominator : Nat
  closed : Bool
  deriving DecidableEq, Repr, Inhabited

/-- The rounding interval of a positive finite number.  Below a power of two the spacing of the
numbers is halved. -/
def RoundingInterval.of (x : Binary64) : RoundingInterval :=
  let m := x.mantissa
  let halved := m = Binary64.fractionModulus ∧ x.exponent > -1074
  let quarter := x.exponent - 2
  let up := if 0 ≤ quarter then Nat.pow 2 quarter.toNat else 1
  let denominator := if 0 ≤ quarter then 1 else Nat.pow 2 (-quarter).toNat
  { low := (4 * m - if halved then 1 else 2) * up
    value := 4 * m * up
    high := (4 * m + 2) * up
    denominator
    closed := m % 2 = 0 }

/-- Whether `digits · 10 ^ power` lies in the interval. -/
def RoundingInterval.contains (i : RoundingInterval) (a : Approximation) : Bool :=
  let down := Nat.pow 10 (-a.power).toNat
  let point := a.digits * Nat.pow 10 a.power.toNat * i.denominator
  if i.closed then i.low * down ≤ point && point ≤ i.high * down
  else i.low * down < point && point < i.high * down

/-- The better neighbour of the value on the grid of multiples of `10 ^ power`, if one lies in the
interval: the nearer one, and the even one of two equally near. -/
def RoundingInterval.onGrid (i : RoundingInterval) (power : Int) : Option Approximation :=
  let num := i.value * Nat.pow 10 (-power).toNat
  let den := i.denominator * Nat.pow 10 power.toNat
  let below : Approximation := ⟨num / den, power⟩
  let above : Approximation := ⟨num / den + 1, power⟩
  let twice := 2 * (num % den)
  let aboveNearer := twice > den ∨ (twice = den ∧ below.digits % 2 = 1)
  match i.contains below, i.contains above with
  | true, true => some (if aboveNearer then above else below)
  | true, false => some below
  | false, true => some above
  | false, false => none

/-- Drops trailing zeros; the first argument bounds their number. -/
def stripZeros : Nat → Approximation → Approximation
  | 0, a => a
  | bound + 1, a =>
    if a.digits % 10 = 0 ∧ a.digits ≠ 0 then stripZeros bound ⟨a.digits / 10, a.power + 1⟩ else a

/-- The shortest decimal that reads back as a positive finite number. -/
def shortest (x : Binary64) : Approximation :=
  let i := RoundingInterval.of x
  let leading := leadingExponent i.value i.denominator
  let found := (List.range 17).findSome? fun (n : Nat) => i.onGrid (leading - n)
  stripZeros 20 (found.getD ⟨i.value / i.denominator, 0⟩)

/-- A run of zeros. -/
def zeros (n : Nat) : String :=
  String.ofList (List.replicate n '0')

/-- The text of a positive decimal. -/
def Layout.positive (layout : Layout) (a : Approximation) : String :=
  let digits := Nat.toDigits 10 a.digits
  let point : Int := digits.length + a.power
  let exponent := point - 1
  if layout.positionalFrom ≤ exponent ∧ exponent < layout.positionalBelow then
    if point ≤ 0 then
      "0." ++ zeros (-point).toNat ++ String.ofList digits
    else if digits.length ≤ point then
      String.ofList digits ++ zeros (point - digits.length).toNat ++ layout.wholeMark
    else
      String.ofList (digits.take point.toNat) ++ "." ++ String.ofList (digits.drop point.toNat)
  else
    let size := Nat.toDigits 10 exponent.natAbs
    let fraction := digits.drop 1
    String.ofList (digits.take 1) ++ (if fraction.isEmpty then "" else "." ++ String.ofList fraction)
      ++ layout.exponentMark ++ (if exponent < 0 then "-" else "+")
      ++ zeros (layout.exponentWidth - size.length) ++ String.ofList size

/-- The text of a number. -/
def Layout.render (layout : Layout) (x : Binary64) : String :=
  if x.isNaN then layout.notANumber
  else
    let body :=
      if !x.isFinite then layout.infinity
      else if x.mantissa = 0 then "0" ++ layout.wholeMark
      else layout.positive (shortest x)
    if x.isNegative then "-" ++ body else body

end DesignTokens.Decimal
