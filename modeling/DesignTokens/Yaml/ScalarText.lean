import DesignTokens.Json.Reader
import DesignTokens.Yaml.Cursor
import DesignTokens.Yaml.Fault
/-!
# The text of scalars

How the text of a scalar is read in each of its styles: between quotes, plain, or as a block of
indented lines.  Lines are folded into one, except in a literal block.
-/

set_option autoImplicit false

namespace DesignTokens.Yaml

/-! ## Quoted scalars -/

/-- What one-letter escapes stand for. -/
def escapes : List (Char × Char) :=
  [('0', '\x00'), ('a', '\x07'), ('b', '\x08'), ('t', '\t'), ('\t', '\t'), ('n', '\n'),
    ('v', '\x0b'), ('f', '\x0c'), ('r', '\r'), ('e', '\x1b'), (' ', ' '), ('"', '"'), ('/', '/'),
    ('\\', '\\'), ('N', '\u0085'), ('_', '\u00A0'), ('L', '\u2028'), ('P', '\u2029')]

/-- How many hexadecimal digits follow the letter of a numeric escape. -/
def numericEscape? : Char → Option Nat
  | 'x' => some 2
  | 'u' => some 4
  | 'U' => some 8
  | _ => none

/-- The character of a number; as in JSON, a surrogate becomes U+FFFD. -/
def characterOf (n : Nat) : Except Fault Char :=
  if n ≤ 0x10FFFF then .ok (Json.charOfPoint n)
  else if n < 0x80000000 then .error (.scalar .noSuchCharacter)
  else .error (.scalar .characterOutOfRange)

/-- The line ends here with the blanks around them, up to what is no blank.  No document may begin
or end among them. -/
def quotedBreaks : Nat → Cursor → Except Fault (List Char × Cursor)
  | 0, cursor => .ok ([], cursor)
  | fuel + 1, cursor =>
    if cursor.atDocumentMark then .error .malformed
    else
      let inner := cursor.skipWhile fun c => c == ' ' || c == '\t'
      match inner.lineBreak? with
      | none => .ok ([], inner)
      | some (c, after) => (quotedBreaks fuel after).map fun (cs, left) => (c :: cs, left)

/-- A run of blanks inside a quoted scalar: as it stands within a line, else folded. -/
def quotedBlanks (cursor : Cursor) : Except Fault (List Char × Cursor) :=
  let isInner (c : Char) : Bool := c == ' ' || c == '\t'
  let inner := cursor.skipWhile isInner
  match inner.lineBreak? with
  | none => .ok (cursor.rest.takeWhile isInner, inner)
  | some (first, after) =>
    (quotedBreaks (after.rest.length + 1) after).map fun (further, left) =>
      (foldBreak first further, left)

/-- An escape after its backslash. -/
def quotedEscape (cursor : Cursor) : Except Fault (List Char × Cursor) :=
  match cursor.rest with
  | [] => .error .malformed
  | e :: digits =>
    match escapes.find? fun pair => pair.1 == e with
    | some (_, c) => .ok ([c], cursor.next)
    | none =>
      match numericEscape? e with
      | some size =>
        if digits.length < size then .error .malformed
        else
          match Json.hexValue? (digits.take size) with
          | some n => (characterOf n).map fun c => ([c], cursor.skip (1 + size))
          | none => .error .malformed
      | none =>
        if isBreak e then quotedBreaks (digits.length + 1) cursor.skipBreak
        else .error .malformed

/-- The rest of a quoted scalar, after its opening quote. -/
def quotedTail (quote : Char) : Nat → Cursor → Except Fault (List Char × Cursor)
  | 0, _ => .error .malformed
  | fuel + 1, cursor =>
    match cursor.rest with
    | [] => .error .malformed
    | c :: rest =>
      if c = quote then
        if quote = '\'' ∧ rest.head? = some '\'' then
          (quotedTail quote fuel (cursor.skip 2)).map fun (cs, left) => ('\'' :: cs, left)
        else
          .ok ([], cursor.next)
      else if quote = '"' ∧ c = '\\' then
        match quotedEscape cursor.next with
        | .error fault => .error fault
        | .ok (piece, after) =>
          (quotedTail quote fuel after).map fun (cs, left) => (piece ++ cs, left)
      else if atBlank cursor.rest then
        match quotedBlanks cursor with
        | .error fault => .error fault
        | .ok (piece, after) =>
          (quotedTail quote fuel after).map fun (cs, left) => (piece ++ cs, left)
      else
        (quotedTail quote fuel cursor.next).map fun (cs, left) => (c :: cs, left)

/-- A quoted scalar from its opening quote. -/
def quotedScalar (quote : Char) (cursor : Cursor) : Except Fault (String × Cursor) :=
  (quotedTail quote (cursor.rest.length + 1) cursor.next).map fun (cs, left) =>
    (String.ofList cs, left)

/-! ## Plain scalars -/

/-- The characters that separate the parts of a flow collection. -/
def isFlowIndicator (c : Char) : Bool :=
  c == ',' || c == '[' || c == ']' || c == '{' || c == '}'

/-- Whether a plain scalar may begin here. -/
def startsPlain (inFlow : Bool) (cs : List Char) : Bool :=
  match cs with
  | [] => false
  | c :: rest =>
    if "-?:".toList.contains c then !atBlank rest && (c == '-' || !inFlow)
    else !(atBlank cs || ",[]\x7b\x7d#&*!|>'\"%@\x60".toList.contains c)

/-- The piece of a plain scalar up to a blank, a mapping's colon, or a flow indicator. -/
def plainPiece (inFlow : Bool) : List Char → List Char
  | [] => []
  | c :: rest =>
    let ends := atBlank (c :: rest) ||
      (c == ':' && (atBlank rest || (inFlow && rest.head?.any isFlowIndicator))) ||
      (inFlow && (isFlowIndicator c || c == '?'))
    if ends then [] else c :: plainPiece inFlow rest

/-- The further line ends here with the spaces around them, and whether a document begins or ends
among them. -/
def plainBreaks : Nat → Cursor → List Char × Cursor × Bool
  | 0, cursor => ([], cursor, false)
  | fuel + 1, cursor =>
    if cursor.atDocumentMark then ([], cursor, true)
    else
      let inner := cursor.skipWhile (· == ' ')
      match inner.lineBreak? with
      | none => ([], inner, false)
      | some (c, after) =>
        let (cs, left, stopped) := plainBreaks fuel after
        (c :: cs, left, stopped)

/-- The blanks after a piece of a plain scalar: what they fold to, where they end, and whether they
cross a line end.  Where a document begins or ends they fold to nothing. -/
def plainBlanks (cursor : Cursor) : List Char × Cursor × Bool :=
  let inner := cursor.skipWhile (· == ' ')
  match inner.lineBreak? with
  | none => (cursor.rest.takeWhile (· == ' '), inner, false)
  | some (first, after) =>
    let (further, left, stopped) := plainBreaks (after.rest.length + 1) after
    (if stopped then [] else foldBreak first further, left, true)

/-- What has been read of a plain scalar: its text, where reading stands, and whether a line end has
been crossed since its last character. -/
structure PlainText where
  text : List Char
  cursor : Cursor
  crossed : Bool
  deriving DecidableEq, Repr, Inhabited

/-- The pieces of a plain scalar with the blanks between them.  A scalar goes on in a further line
that is indented by `indent` at least. -/
def plainPieces (inFlow : Bool) (indent : Nat) : Nat → PlainText → PlainText
  | 0, done => done
  | fuel + 1, done =>
    let piece := plainPiece inFlow done.cursor.rest
    if piece.isEmpty then done
    else
      let (blanks, after, crossed) := plainBlanks (done.cursor.skip piece.length)
      let here : PlainText := ⟨piece, after, crossed⟩
      if blanks.isEmpty || after.rest.head? == some '#' || (!inFlow && after.column < indent) then
        here
      else
        let more := plainPieces inFlow indent fuel ⟨[], after, crossed⟩
        if more.text.isEmpty then { more with text := piece }
        else { more with text := piece ++ blanks ++ more.text }

/-- A plain scalar. -/
def plainScalar (inFlow : Bool) (indent : Nat) (cursor : Cursor) : PlainText :=
  plainPieces inFlow indent (cursor.rest.length + 1) ⟨[], cursor, false⟩

/-! ## Block scalars -/

/-- What is kept of the line ends after a block: none, one, or all. -/
inductive Chomping where
  | strip
  | clip
  | keep
  deriving DecidableEq, Repr, Inhabited

/-- The chomping that a sign asks for. -/
def chompingOf? : Char → Option Chomping
  | '+' => some .keep
  | '-' => some .strip
  | _ => none

/-- The indentation that a digit asks for; it is not zero. -/
def indentationOf? (c : Char) : Option Nat :=
  if '1' ≤ c ∧ c ≤ '9' then some (c.toNat - '0'.toNat) else none

/-- The head of a block: its chomping and its indentation, in either order, if they are given. -/
def blockHead (cursor : Cursor) : (Chomping × Option Nat) × Cursor :=
  match cursor.rest with
  | c :: rest =>
    match chompingOf? c with
    | some chomping =>
      match rest.head?.bind indentationOf? with
      | some n => ((chomping, some n), cursor.skip 2)
      | none => ((chomping, none), cursor.next)
    | none =>
      match indentationOf? c with
      | none => ((.clip, none), cursor)
      | some n =>
        match rest.head?.bind chompingOf? with
        | some chomping => ((chomping, some n), cursor.skip 2)
        | none => ((.clip, some n), cursor.next)
  | [] => ((.clip, none), cursor)

/-- Past the rest of a line that holds nothing but a comment. -/
def emptyLine (cursor : Cursor) : Except Fault Cursor :=
  let left := (cursor.skipWhile (· == ' ')).skipComment
  if atBreak left.rest then .ok left.skipBreak else .error .malformed

/-- The blank lines at the front of a block, and the deepest column that their spaces reach. -/
def leadingLines : Nat → Nat → Cursor → List Char × Nat × Cursor
  | 0, deepest, cursor => ([], deepest, cursor)
  | fuel + 1, deepest, cursor =>
    let inner := cursor.skipWhile (· == ' ')
    let reached := max deepest inner.column
    match inner.lineBreak? with
    | none => ([], reached, inner)
    | some (c, after) =>
      let (cs, column, left) := leadingLines fuel reached after
      (c :: cs, column, left)

/-- Past spaces, up to a column at most. -/
def skipIndent (indent : Nat) (cursor : Cursor) : Cursor :=
  cursor.skip (min (indent - cursor.column) (cursor.rest.takeWhile (· == ' ')).length)

/-- The blank lines here; a line with deeper spaces is none. -/
def blankLines (indent : Nat) : Nat → Cursor → List Char × Cursor
  | 0, cursor => ([], cursor)
  | fuel + 1, cursor =>
    let inner := skipIndent indent cursor
    match inner.lineBreak? with
    | none => ([], inner)
    | some (c, after) =>
      let (cs, left) := blankLines indent fuel after
      (c :: cs, left)

/-- Whether a line of a block begins at a cursor. -/
def atBlockLine (indent : Nat) (cursor : Cursor) : Bool :=
  cursor.column == indent && !cursor.rest.isEmpty

/-- Whether a text begins with a space or a tab. -/
def startsBlank (cs : List Char) : Bool :=
  cs.head?.any fun c => c == ' ' || c == '\t'

/-- The line end between two lines of a block.  In a folded block a line feed between lines that do
not begin with a blank is a space, or nothing before blank lines. -/
def joinLines (folded : Bool) (lineEnd : List Char) (line next : List Char) (blanks : List Char) :
    List Char :=
  if folded && lineEnd == ['\n'] && !startsBlank line && !startsBlank next then
    if blanks.isEmpty then [' '] else []
  else lineEnd

/-- What stands at the end of a block: the line end of its last line, and the blank lines. -/
def blockEnd (chomping : Chomping) (lineEnd blanks : List Char) : List Char :=
  match chomping with
  | .strip => []
  | .clip => lineEnd
  | .keep => lineEnd ++ blanks

/-- The lines of a block from a cursor on, with the blank lines before it. -/
def blockLines (folded : Bool) (chomping : Chomping) (indent : Nat) :
    Nat → List Char → Cursor → List Char × Cursor
  | 0, _, cursor => ([], cursor)
  | fuel + 1, blanks, cursor =>
    let line := cursor.rest.takeWhile (!isBreak ·)
    let lineEnd := cursor.skipLine
    let (mark, afterEnd) := match lineEnd.lineBreak? with
      | some (c, after) => ([c], after)
      | none => ([], lineEnd)
    let (further, next) := blankLines indent (afterEnd.rest.length + 1) afterEnd
    if atBlockLine indent next then
      let (more, left) := blockLines folded chomping indent fuel further next
      (blanks ++ line ++ joinLines folded mark line next.rest further ++ more, left)
    else
      (blanks ++ line ++ blockEnd chomping mark further, next)

/-- A block scalar from its indicator; `parent` is the indentation of what it stands in. -/
def blockScalar (folded : Bool) (parent : Int) (cursor : Cursor) :
    Except Fault (String × Cursor) :=
  let ((chomping, given), afterHead) := blockHead cursor.next
  if !atSpace afterHead.rest then .error .malformed
  else
    match emptyLine afterHead with
    | .error fault => .error fault
    | .ok start =>
      let least := max 1 (parent + 1).toNat
      let (blanks, indent, first) := match given with
        | none =>
          let (cs, deepest, left) := leadingLines (start.rest.length + 1) 0 start
          (cs, max least deepest, left)
        | some n =>
          let indent := least + n - 1
          let (cs, left) := blankLines indent (start.rest.length + 1) start
          (cs, indent, left)
      let (text, left) :=
        if atBlockLine indent first then
          blockLines folded chomping indent (first.rest.length + 1) blanks first
        else (blockEnd chomping [] blanks, first)
      .ok (String.ofList text, left)

end DesignTokens.Yaml
