/-!
# Token types

The closed set of token types, and the further names that documents may use for them.
-/

set_option autoImplicit false

namespace DesignTokens

/-- A token type; it decides how a literal is written in a style sheet. -/
inductive TokenType where
  | color
  | number
  | dimension
  | fontFamily
  | fontWeight
  | string
  | boolean
  deriving DecidableEq, Repr, Inhabited

namespace TokenType

/-- The name of a type. -/
def name : TokenType → String
  | .color => "color"
  | .number => "number"
  | .dimension => "dimension"
  | .fontFamily => "fontFamily"
  | .fontWeight => "fontWeight"
  | .string => "string"
  | .boolean => "boolean"

/-- All types. -/
def all : List TokenType :=
  [.color, .number, .dimension, .fontFamily, .fontWeight, .string, .boolean]

/-- The type of a name. -/
def ofName? (s : String) : Option TokenType :=
  all.find? fun t => t.name == s

/-- Names of other vocabularies that are read as one of the types. -/
def aliases : List (String × TokenType) :=
  [("spacing", .dimension), ("sizing", .dimension), ("borderRadius", .dimension),
    ("borderWidth", .dimension), ("fontSizes", .dimension), ("lineHeights", .dimension),
    ("letterSpacing", .dimension), ("paragraphSpacing", .dimension), ("opacity", .number),
    ("fontFamilies", .fontFamily), ("fontWeights", .fontWeight), ("text", .string),
    ("other", .string)]

/-- The type that a document's type name declares. -/
def ofDeclared? (s : String) : Option TokenType :=
  match aliases.find? fun pair => pair.1 == s with
  | some (_, t) => some t
  | none => ofName? s

theorem ofName?_name (t : TokenType) : ofName? t.name = some t := by
  cases t <;> decide

end TokenType

end DesignTokens
