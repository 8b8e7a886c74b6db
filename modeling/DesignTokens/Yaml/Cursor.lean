/-!
# Cursors

A cursor stands in a YAML text.  It knows the text still to be read, how many characters are behind
it, and the line and column it is in.
-/

set_option autoImplicit false

namespace DesignTokens.Yaml

/-- The characters that end a line. -/
def isBreak (c : Char) : Bool :=
  c == '\n' || c == '\r' || c == '\u0085' || c == '\u2028' || c == '\u2029'

/-- Whether a text is at its end or at a line end. -/
def atBreak : List Char → Bool
  | [] => true
  | c :: _ => isBreak c

/-- Whether a text is at its end, at a line end or at a blank. -/
def atBlank : List Char → Bool
  | [] => true
  | c :: _ => c == ' ' || c == '\t' || isBreak c

/-- Whether a text is at its end, at a line end or at a space. -/
def atSpace : List Char → Bool
  | [] => true
  | c :: _ => c == ' ' || isBreak c

/-- Where reading stands. -/
structure Cursor where
  rest : List Char
  index : Nat
  line : Nat
  column : Nat
  deriving DecidableEq, Repr, Inhabited

namespace Cursor

/-- The start of a text. -/
def start (text : List Char) : Cursor :=
  ⟨text, 0, 0, 0⟩

/-- Past the next character.  A byte order mark takes no column. -/
def next (cursor : Cursor) : Cursor :=
  match cursor.rest with
  | [] => cursor
  | c :: rest =>
    if isBreak c && !(c == '\r' && rest.head? == some '\n') then
      ⟨rest, cursor.index + 1, cursor.line + 1, 0⟩
    else
      ⟨rest, cursor.index + 1, cursor.line,
        if c = '\uFEFF' then cursor.column else cursor.column + 1⟩

/-- Past a number of characters. -/
def skip : Nat → Cursor → Cursor
  | 0, cursor => cursor
  | n + 1, cursor => skip n cursor.next

/-- Past the characters of a kind. -/
def skipWhile (keep : Char → Bool) (cursor : Cursor) : Cursor :=
  skip (cursor.rest.takeWhile keep).length cursor

/-- Past the rest of the line. -/
def skipLine (cursor : Cursor) : Cursor :=
  cursor.skipWhile (!isBreak ·)

/-- Past a comment, if one begins here. -/
def skipComment (cursor : Cursor) : Cursor :=
  match cursor.rest with
  | '#' :: _ => cursor.skipLine
  | _ => cursor

/-- The line end that stands here, and what follows it.  The plain line ends read as line feeds; the
separators of lines and paragraphs stay what they are. -/
def lineBreak? (cursor : Cursor) : Option (Char × Cursor) :=
  match cursor.rest with
  | '\r' :: '\n' :: _ => some ('\n', cursor.skip 2)
  | c :: _ =>
    if c = '\u2028' ∨ c = '\u2029' then some (c, cursor.next)
    else if isBreak c then some ('\n', cursor.next)
    else none
  | [] => none

/-- Past a line end, if one stands here. -/
def skipBreak (cursor : Cursor) : Cursor :=
  match cursor.lineBreak? with
  | some (_, after) => after
  | none => cursor

/-- Whether three of a character stand here at the front of a line, with a blank after them: three
hyphens begin a document, three points end one. -/
def atMark (c : Char) (cursor : Cursor) : Bool :=
  cursor.column == 0 && cursor.rest.take 3 == [c, c, c] && atBlank (cursor.rest.drop 3)

/-- Whether a document begins or ends here. -/
def atDocumentMark (cursor : Cursor) : Bool :=
  cursor.atMark '-' || cursor.atMark '.'

end Cursor

/-- A line end before others, folded: a line feed alone is a space, and before others it is
dropped; another line end stays. -/
def foldBreak (first : Char) (further : List Char) : List Char :=
  if first ≠ '\n' then first :: further
  else if further.isEmpty then [' ']
  else further

end DesignTokens.Yaml
