import DesignTokens.Text.Printable
/-!
# Quoted text

How a text is shown inside a message: between single quotes, or between double quotes when it holds
a single quote and no double quote, with every character that would not print written as an escape.
-/

set_option autoImplicit false

namespace DesignTokens.Text

/-- The low `count` hexadecimal digits of a number, most significant first, in lower case. -/
def hexDigits : Nat → Nat → List Char
  | 0, _ => []
  | count + 1, n => hexDigits count (n / 16) ++ [Nat.digitChar (n % 16)]

/-- The shown form of one character between the given quotes. -/
def escapeChar (quote c : Char) : List Char :=
  if c = quote ∨ c = '\\' then ['\\', c]
  else if c = '\n' then ['\\', 'n']
  else if c = '\r' then ['\\', 'r']
  else if c = '\t' then ['\\', 't']
  else if isPrintable c then [c]
  else if c.toNat ≤ 0xFF then '\\' :: 'x' :: hexDigits 2 c.toNat
  else if c.toNat ≤ 0xFFFF then '\\' :: 'u' :: hexDigits 4 c.toNat
  else '\\' :: 'U' :: hexDigits 8 c.toNat

/-- Double quotes are used only to spare a single quote its escape. -/
def quoteFor (cs : List Char) : Char :=
  if cs.contains '\'' && !cs.contains '"' then '"' else '\''

/-- A text as a message shows it. -/
def quoted (s : String) : String :=
  let cs := s.toList
  let quote := quoteFor cs
  String.ofList (quote :: cs.flatMap (escapeChar quote) ++ [quote])

/-- A list of texts as a message shows it: `['a', 'b']`. -/
def quotedList (xs : List String) : String :=
  "[" ++ ", ".intercalate (xs.map quoted) ++ "]"

/-- A tuple of texts as a message shows it: a comma follows a single member. -/
def quotedTuple : List String → String
  | [x] => "(" ++ quoted x ++ ",)"
  | xs => "(" ++ ", ".intercalate (xs.map quoted) ++ ")"

end DesignTokens.Text
