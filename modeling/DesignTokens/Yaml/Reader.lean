import DesignTokens.Yaml.Node
/-!
# Reading YAML

A reader for settings written in YAML 1.1.  A text holds at most one document; of a repeated key the
last value counts.  A text that is well written may still hold scalars without a value.  Of several
such faults the one nearest to the root is met first.
-/

set_option autoImplicit false

namespace DesignTokens.Yaml

/-- A fault of a node, and how deep in the document it is met. -/
structure DeepFault where
  depth : Nat
  fault : Fault
  deriving DecidableEq, Repr, Inhabited

/-- A part of a document with its value. -/
abbrev Valued (α : Type) : Type := Except DeepFault α

namespace Valued

variable {α β γ : Type}

/-- Two parts together.  Of two faults the less deep one is met, of equal ones the first. -/
def both (combine : α → β → γ) (first : Valued α) (second : Valued β) : Valued γ :=
  match first, second with
  | .ok a, .ok b => .ok (combine a b)
  | .error f, .ok _ => .error f
  | .ok _, .error g => .error g
  | .error f, .error g => .error (if g.depth < f.depth then g else f)

/-- A value that can be a key.  That a list or a mapping cannot is met before its own faults. -/
def asKey (depth : Nat) (key : Valued Datum) : Valued Datum :=
  match key with
  | .ok value => if value.keyForm?.isSome then key else .error ⟨depth, .malformed⟩
  | .error met => if depth < met.depth then .error ⟨depth, .malformed⟩ else key

end Valued

namespace Node

/-- The value of a scalar at a depth. -/
def scalarAt (depth : Nat) (tag : Tag) (text : String) : Valued Datum :=
  (scalarValue tag text).mapError fun fault => ⟨depth, fault⟩

mutual

/-- The value of a node.  Collections are met when their parent is, and their parts one deeper. -/
def value (depth : Nat) : Node → Valued Datum
  | .scalar tag text => scalarAt depth tag text
  | .list .list items => (values (depth + 1) items).map Datum.list
  | .list .map _ | .map .list _ | .broken => .error ⟨depth + 1, .malformed⟩
  | .list _ _ => .error ⟨depth, .malformed⟩
  | .map .map pairs => (pairValues (depth + 1) pairs).map fun all => .map (Datum.Pairs.ofList all)
  | .map tag pairs =>
    match scalarText?.textOfDefault? pairs with
    | some text => scalarAt depth tag text
    | none => .error ⟨depth, .malformed⟩
  | .enclosing isMap => .ok (if isMap then .map [] else .list [])

/-- The values of the items of a list. -/
def values (depth : Nat) : List Node → Valued (List Datum)
  | [] => .ok []
  | item :: items => Valued.both List.cons (value depth item) (values depth items)

/-- The values of the pairs of a mapping. -/
def pairValues (depth : Nat) : List (Node × Node) → Valued (List (Datum × Datum))
  | [] => .ok []
  | (key, item) :: pairs =>
    Valued.both List.cons
      (Valued.both Prod.mk ((value depth key).asKey depth) (value depth item))
      (pairValues depth pairs)

end

end Node

/-- The characters that a text may hold. -/
def isAllowed (c : Char) : Bool :=
  let n := c.toNat
  n == 0x09 || n == 0x0A || n == 0x0D || (0x20 ≤ n && n ≤ 0x7E) || n == 0x85 ||
    (0xA0 ≤ n && n ≤ 0xD7FF) || (0xE000 ≤ n && n ≤ 0xFFFD) || 0x10000 ≤ n

/-- Reads a text as one YAML document; a text without one is null. -/
def read (text : String) : Except Fault Datum :=
  let cs := text.toList
  if cs.all isAllowed then
    match Node.ofText (if cs.head? = some '\uFEFF' then cs.drop 1 else cs) with
    | .error fault => .error fault
    | .ok none => .ok .null
    | .ok (some node) => (node.value 0).mapError (·.fault)
  else .error .malformed

end DesignTokens.Yaml
