import DesignTokens.Json.Reader
import DesignTokens.Text.Blank
import DesignTokens.Text.Digit
/-!
# Numbers given by hand

A number as a person may type it: blanks around it, a sign, digits of any script grouped by single
underscores, a point on either side of which digits may be missing, an exponent, or a word for what
is not finite.  A whole number may be typed in another base, with or without the mark of the base.
-/

set_option autoImplicit false

namespace DesignTokens.Decimal

/-- The digits of a run in which single underscores may stand between digits. -/
def groupedDigits? : List Char → Option (List Char)
  | [] => some []
  | [c] => if c.isDigit then some [c] else none
  | c :: '_' :: d :: rest =>
    if c.isDigit ∧ d.isDigit then (groupedDigits? (d :: rest)).map (c :: ·) else none
  | c :: d :: rest => if c.isDigit then (groupedDigits? (d :: rest)).map (c :: ·) else none

/-- The sign in front of a text, and the rest. -/
def signed : List Char → Bool × List Char
  | '-' :: rest => (true, rest)
  | '+' :: rest => (false, rest)
  | cs => (false, cs)

/-- The exponent that follows a mark. -/
def exponentAfterMark? (cs : List Char) : Option Int :=
  let (negative, digits) := signed cs
  match groupedDigits? digits with
  | some (d :: ds) =>
    let size : Int := Json.decimalValue (d :: ds)
    some (if negative then -size else size)
  | _ => none

/-- A number without sign and blanks. -/
def unsigned? (negative : Bool) (cs : List Char) : Option Binary64 :=
  let isMark (c : Char) : Bool := c == 'e' || c == 'E'
  let mantissa := cs.takeWhile (!isMark ·)
  let power? := match cs.dropWhile (!isMark ·) with
    | [] => some 0
    | _ :: rest => exponentAfterMark? rest
  let whole? := groupedDigits? (mantissa.takeWhile (· != '.'))
  let fraction? := groupedDigits? ((mantissa.dropWhile (· != '.')).drop 1)
  match whole?, fraction?, power? with
  | some whole, some fraction, some power =>
    if whole.isEmpty && fraction.isEmpty then none
    else
      some (Binary64.ofDecimal negative (Json.decimalValue (whole ++ fraction))
        (power - fraction.length))
  | _, _, _ => none

/-- Whether a blank may stand around a number; the information separators may not. -/
def isPadding (c : Char) : Bool :=
  Text.isBlank c && !(0x1C ≤ c.toNat && c.toNat ≤ 0x1F)

/-- A text without the blanks around it, its digits written as `0` to `9`. -/
def plainDigits (cs : List Char) : List Char :=
  ((cs.dropWhile isPadding).reverse.dropWhile isPadding).reverse.map Text.plainDigit

/-- The number that a text writes. -/
def parse? (text : String) : Option Binary64 :=
  let (negative, cs) := signed (plainDigits text.toList)
  let word := String.ofList (cs.map Char.toLower)
  if word = "inf" ∨ word = "infinity" then some (Binary64.infinite negative)
  else if word = "nan" then some Binary64.nan
  else unsigned? negative cs

/-- The letters that mark digits of a base, after a zero. -/
def baseMarks : List (Nat × Char) :=
  [(2, 'b'), (8, 'o'), (16, 'x')]

/-- Digits without the mark of their base. -/
def withoutMark (base : Nat) (cs : List Char) : List Char :=
  match cs with
  | '0' :: mark :: digits => if baseMarks.contains (base, mark.toLower) then digits else cs
  | _ => cs

/-- The number that digits of a base write; there must be one at least. -/
def digitsValue? (base : Nat) (cs : List Char) : Option Nat :=
  match cs.mapM fun c => (Json.hexDigitValue? c).filter (· < base) with
  | some (d :: ds) => some ((d :: ds).foldl (base * · + ·) 0)
  | _ => none

/-- The whole number that a text writes in a base, with digits that are not grouped. -/
def wholeNumber? (base : Nat) (cs : List Char) : Option Int :=
  let (negative, digits) := signed (plainDigits cs)
  (digitsValue? base (withoutMark base digits)).map fun (n : Nat) =>
    if negative then -(n : Int) else n

end DesignTokens.Decimal
