import DesignTokens.Token.Kind
import DesignTokens.Token.Value
/-!
# Tokens and layers

A token as one layer defines it, the layer that holds it, and the resolved token that a style sheet
declares.
-/

set_option autoImplicit false

namespace DesignTokens

/-- A named design value.  An untyped reference has no type of its own. -/
structure Token where
  path : TokenPath
  type : Option TokenType
  value : TokenValue
  layer : String
  description : Option String
  deriving DecidableEq, Repr, Inhabited

/-- The JSON form of a value in the canonical text of a tree. -/
def TokenValue.canonicalJson : TokenValue → Json
  | .reference target => .obj [("ref", .arr (target.map .str))]
  | .literal value => .obj [("lit", value.toJson), ("py", .str value.kindName)]

/-- The JSON form of a token in the canonical text of a tree: what its resolution depends on, with
the keys in order. -/
def Token.canonicalJson (token : Token) : Json :=
  .obj [("path", .arr (token.path.map .str)),
    ("type", match token.type with
      | some t => .str t.name
      | none => .null),
    ("value", token.value.canonicalJson)]

/-- The tokens of one document, at a fixed position of the cascade.  A layer without a mode applies
to every mode. -/
structure Layer where
  name : String
  mode : Option String
  group : String
  emit : Bool
  source : String
  tokens : List Token
  deriving DecidableEq, Repr, Inhabited

/-- Whether a layer takes part in the cascade of a mode. -/
def Layer.appliesTo (layer : Layer) (mode : String) : Bool :=
  match layer.mode with
  | none => true
  | some own => own == mode

/-- A token whose value has been reduced to a literal. -/
structure ResolvedToken where
  path : TokenPath
  type : TokenType
  value : Scalar
  layer : String
  deriving DecidableEq, Repr, Inhabited

end DesignTokens
