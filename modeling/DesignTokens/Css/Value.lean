import DesignTokens.Text.Blank
import DesignTokens.Token.Basic
/-!
# Values in a style sheet

How a literal is written in a declaration.  Numbers stay without a unit; texts have their blanks
reduced to single spaces.  The type adds the quotes of a font family and the number of a font weight.
-/

set_option autoImplicit false

namespace DesignTokens.Css

/-- The numbers of the named font weights. -/
def fontWeights : List (String × String) :=
  [("thin", "100"), ("extra-light", "200"), ("light", "300"), ("normal", "400"),
    ("medium", "500"), ("semi-bold", "600"), ("bold", "700"), ("extra-bold", "800"),
    ("black", "900")]

/-- A letter in lower case, as far as the names of font weights can tell: ASCII letters, and the
Kelvin sign, whose lower case is `k`. -/
def lowerLetter (c : Char) : Char :=
  if c = '\u212A' then 'k' else c.toLower

/-- The number of a font weight given by its name in any case. -/
def fontWeight? (s : String) : Option String :=
  let lower := String.ofList (s.toList.map lowerLetter)
  (fontWeights.find? fun pair => pair.1 == lower).map (·.2)

/-- Whether a font family needs quotes: it has a space, is no list and is not quoted yet. -/
def needsQuotes (s : String) : Bool :=
  match s.toList with
  | [] => false
  | c :: _ => s.toList.contains ' ' && !s.toList.contains ',' && c != '\'' && c != '"'

/-- A text with single spaces between its words. -/
def normalizeText (s : String) : String :=
  " ".intercalate (Text.words s)

/-- A text in a declaration of a type. -/
def renderText (s : String) (type : TokenType) : String :=
  let text := normalizeText s
  match type with
  | .fontFamily => if needsQuotes text then "\"" ++ text ++ "\"" else text
  | .fontWeight => (fontWeight? text).getD text
  | _ => text

/-- A literal in a declaration of a type.  A number without a fraction is written as an integer. -/
def renderValue (value : Scalar) (type : TokenType) : String :=
  match value with
  | .bool b => if b then "true" else "false"
  | .int n => toString n
  | .float x =>
    match x.toInt? with
    | some n => toString n
    | none => Json.shownFloatLayout.render x
  | .str s => renderText s type

end DesignTokens.Css
