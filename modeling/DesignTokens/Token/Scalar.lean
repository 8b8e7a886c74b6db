import DesignTokens.Datum
/-!
# Scalars

The literal values that a design token can have.
-/

set_option autoImplicit false

namespace DesignTokens

/-- A literal value; the kinds stay apart even where values print alike. -/
inductive Scalar where
  | bool (value : Bool)
  | int (value : Int)
  | float (value : Binary64)
  | str (value : String)
  deriving DecidableEq, Repr, Inhabited

namespace Scalar

/-- A scalar as a value of a document. -/
def toDatum : Scalar → Datum
  | .bool b => .bool b
  | .int n => .int n
  | .float x => .float x
  | .str s => .str s

/-- The scalar that a value is, if it is of a kind that tokens have. -/
def ofDatum? : Datum → Option Scalar
  | .bool b => some (.bool b)
  | .int n => some (.int n)
  | .float x => some (.float x)
  | .str s => some (.str s)
  | .null | .day _ | .moment _ | .list _ | .map _ => none

/-- The JSON form of a scalar. -/
def toJson : Scalar → Json
  | .bool b => .bool b
  | .int n => .int n
  | .float x => .float x
  | .str s => .str s

/-- The scalar that a JSON value is, unless it is null, an array or an object. -/
def ofJson? (value : Json) : Option Scalar :=
  ofDatum? (.ofJson value)

/-- The name of a scalar's kind. -/
def kindName (s : Scalar) : String :=
  s.toDatum.kindName

/-- A scalar as a message shows it. -/
def shown (s : Scalar) : String :=
  s.toDatum.shown

@[simp] theorem ofDatum?_toDatum (s : Scalar) : ofDatum? s.toDatum = some s := by
  cases s <;> rfl

@[simp] theorem ofJson?_toJson (s : Scalar) : ofJson? s.toJson = some s := by
  cases s <;> rfl

end Scalar

end DesignTokens
