/-!
# Blank characters

Trimming and word splitting over the Unicode white space characters.  A blank is a white space
character of the Unicode standard or one of the four information separators U+001C to U+001F; the
zero-width characters (U+200B, U+FEFF) are not blank.
-/

set_option autoImplicit false

namespace DesignTokens.Text

/-- The white space characters, by code point. -/
def isBlank (c : Char) : Bool :=
  let n := c.toNat
  (0x09 ≤ n && n ≤ 0x0D) || (0x1C ≤ n && n ≤ 0x20) || n == 0x85 || n == 0xA0 || n == 0x1680 ||
    (0x2000 ≤ n && n ≤ 0x200A) || n == 0x2028 || n == 0x2029 || n == 0x202F || n == 0x205F ||
    n == 0x3000

/-- What is left of a text once the blanks at its front are dropped. -/
def trimStart (cs : List Char) : List Char :=
  cs.dropWhile isBlank

/-- What is left of a text once the blanks at its end are dropped. -/
def trimEnd (cs : List Char) : List Char :=
  (cs.reverse.dropWhile isBlank).reverse

/-- A text without the blanks around it. -/
def trim (s : String) : String :=
  String.ofList (trimEnd (trimStart s.toList))

/-- A text is blank if it holds nothing but blanks; the empty text is blank. -/
def allBlank (s : String) : Bool :=
  s.toList.all isBlank

/-- The maximal runs of characters that satisfy `keep`, in order. -/
def runs (keep : Char → Bool) : List Char → List (List Char)
  | [] => []
  | c :: rest =>
    if keep c then
      match rest, runs keep rest with
      | d :: _, word :: words => if keep d then (c :: word) :: words else [c] :: word :: words
      | _, words => [c] :: words
    else
      runs keep rest

/-- The words of a text: its maximal runs of characters that are not blank. -/
def words (s : String) : List String :=
  (runs (fun c => !isBlank c) s.toList).map String.ofList

/-- Cuts a text at every occurrence of `separator`; there is always at least one piece. -/
def splitAtChar (separator : Char) : List Char → List (List Char)
  | [] => [[]]
  | c :: rest =>
    if c = separator then
      [] :: splitAtChar separator rest
    else
      match splitAtChar separator rest with
      | [] => [[c]]
      | piece :: pieces => (c :: piece) :: pieces

/-- Universal newlines: a carriage return, alone or before a line feed, reads as a line feed. -/
def normalizeNewlines : List Char → List Char
  | [] => []
  | '\r' :: '\n' :: rest => '\n' :: normalizeNewlines rest
  | c :: rest => (if c = '\r' then '\n' else c) :: normalizeNewlines rest

end DesignTokens.Text
