import DesignTokens.Decimal.Shortest
import DesignTokens.Json.Basic
import DesignTokens.Text.Quoted
/-!
# Printing JSON

The compact form of a value: no blanks, fields in their order, plain ASCII.  Characters beyond it
are written as escapes of UTF-16 units.  The indented form has the same parts on lines of their own.
Integers are written up to a number of digits; whether a value holds a longer one is told apart from
its form.
-/

set_option autoImplicit false

namespace DesignTokens.Json

/-- Numbers show the shortest digits that read back, with a point or an exponent, and have no
exponent from `0.0001` up to below `10 ^ 16`. -/
def floatLayout : Decimal.Layout :=
  { positionalFrom := -4, positionalBelow := 16, wholeMark := ".0", exponentMark := "e",
    exponentWidth := 2, infinity := "Infinity", notANumber := "NaN" }

/-- As in JSON text, with the short words for what is not finite. -/
def shownFloatLayout : Decimal.Layout :=
  { floatLayout with infinity := "inf", notANumber := "nan" }

/-- The escape of a UTF-16 unit. -/
def unitEscape (unit : Nat) : List Char :=
  '\\' :: 'u' :: Text.hexDigits 4 unit

/-- A character inside a string. -/
def escapeChar (c : Char) : List Char :=
  if c = '"' then ['\\', '"']
  else if c = '\\' then ['\\', '\\']
  else if c = '\n' then ['\\', 'n']
  else if c = '\r' then ['\\', 'r']
  else if c = '\t' then ['\\', 't']
  else if c = '\x08' then ['\\', 'b']
  else if c = '\x0c' then ['\\', 'f']
  else if ' ' ≤ c ∧ c ≤ '~' then [c]
  else if c.toNat < 0x10000 then unitEscape c.toNat
  else
    let offset := c.toNat - 0x10000
    unitEscape (0xD800 + offset / 0x400) ++ unitEscape (0xDC00 + offset % 0x400)

/-- A string between its quotes. -/
def renderString (s : String) : String :=
  String.ofList ('"' :: s.toList.flatMap escapeChar ++ ['"'])

mutual

/-- The compact form of a value. -/
def render : Json → String
  | .null => "null"
  | .bool b => if b then "true" else "false"
  | .int n => toString n
  | .float x => floatLayout.render x
  | .str s => renderString s
  | .arr items => "[" ++ ",".intercalate (renderItems items) ++ "]"
  | .obj fields => "\x7b" ++ ",".intercalate (renderFields fields) ++ "\x7d"

/-- The compact forms of the items of an array. -/
def renderItems : List Json → List String
  | [] => []
  | item :: items => render item :: renderItems items

/-- The compact forms of the pairs of an object. -/
def renderFields : Fields → List String
  | [] => []
  | (key, value) :: fields => (renderString key ++ ":" ++ render value) :: renderFields fields

end

mutual

/-- Whether a value has a compact form at all: an integer with too many digits is not written. -/
def isRenderable : Json → Bool
  | .int n => withinDigits n
  | .arr items => areRenderable items
  | .obj fields => haveRenderable fields
  | .null | .bool _ | .float _ | .str _ => true

/-- Whether all items of an array have a compact form. -/
def areRenderable : List Json → Bool
  | [] => true
  | item :: items => isRenderable item && areRenderable items

/-- Whether the values of all fields have a compact form. -/
def haveRenderable : Fields → Bool
  | [] => true
  | (_, value) :: fields => isRenderable value && haveRenderable fields

end

/-- A new line at a depth; every level is indented by two spaces. -/
def lineAt (depth : Nat) : String :=
  "\n" ++ String.ofList (List.replicate (2 * depth) ' ')

/-- Parts between brackets, each on a line of its own. -/
def indentParts (depth : Nat) (opening closing : String) (parts : List String) : String :=
  if parts.isEmpty then opening ++ closing
  else
    opening ++ lineAt (depth + 1) ++ ("," ++ lineAt (depth + 1)).intercalate parts ++
      lineAt depth ++ closing

mutual

/-- The indented form of a value that stands at a depth. -/
def renderIndented (depth : Nat) : Json → String
  | .arr items => indentParts depth "[" "]" (indentedItems (depth + 1) items)
  | .obj fields => indentParts depth "\x7b" "\x7d" (indentedFields (depth + 1) fields)
  | .null => render .null
  | .bool b => render (.bool b)
  | .int n => render (.int n)
  | .float x => render (.float x)
  | .str s => render (.str s)

/-- The indented forms of the items of an array. -/
def indentedItems (depth : Nat) : List Json → List String
  | [] => []
  | item :: items => renderIndented depth item :: indentedItems depth items

/-- The indented forms of the pairs of an object. -/
def indentedFields (depth : Nat) : Fields → List String
  | [] => []
  | (key, value) :: fields =>
    (renderString key ++ ": " ++ renderIndented depth value) :: indentedFields depth fields

end

end DesignTokens.Json
