import DesignTokens.Decimal.Binary64
import DesignTokens.OrderedMap
/-!
# JSON values

Integers and floating point numbers are kept apart, and an object keeps its pairs in text order.
-/

set_option autoImplicit false

namespace DesignTokens

/-- A JSON value. -/
inductive Json where
  | null
  | bool (value : Bool)
  | int (value : Int)
  | float (value : Binary64)
  | str (value : String)
  | arr (items : List Json)
  | obj (fields : List (String × Json))
  deriving Repr, Inhabited, BEq

namespace Json

/-- The pairs of an object, in order. -/
abbrev Fields := OrderedMap String Json

/-- The most digits that an integer may have, where it is read from a text and where it is written
into one. -/
def maxIntegerDigits : Nat := 4300

/-- Whether an integer has no more digits than that. -/
def withinDigits (n : Int) : Bool :=
  n.natAbs < Nat.pow 10 maxIntegerDigits

/-- The first key that repeats an earlier one; `seen` holds the keys before. -/
def firstRepeated {κ : Type} [DecidableEq κ] (seen : List κ) : List κ → Option κ
  | [] => none
  | key :: rest => if key ∈ seen then some key else firstRepeated (key :: seen) rest

end Json

end DesignTokens
