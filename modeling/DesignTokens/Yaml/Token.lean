import DesignTokens.OrderedMap
import DesignTokens.Yaml.ScalarText
/-!
# Tokens of YAML

A YAML text as a sequence of tokens.  Block collections are opened and closed by indentation, which
the tokens make explicit.

That a node is a key is known only at the colon after it.  Tokens are only ever appended, so that
reading keeps apart which nodes may still become keys and which have become keys; the tokens that
mark keys are put before them at the end.  A node can become a key if the colon follows on the same
line and within 1024 characters.

A text whose tokens cannot be read to the end still has those before the fault, since a fault of
their order comes first.
-/

set_option autoImplicit false

namespace DesignTokens.Yaml

/-- A line at the head of a document that tells how to read it. -/
inductive Directive where
  | version (major : Nat)
  | handle (name meaning : String)
  | other
  deriving DecidableEq, Repr, Inhabited

/-- A token. -/
inductive Token where
  | directive (given : Directive)
  | documentStart
  | documentEnd
  | listStart
  | mapStart
  | blockEnd
  | flowListStart
  | flowListEnd
  | flowMapStart
  | flowMapEnd
  | entry
  | comma
  | key
  | value
  | alias (name : String)
  | anchor (name : String)
  | tag (handle : Option String) (name : String)
  | scalar (text : String) (isPlain : Bool)
  | textEnd
  deriving DecidableEq, Repr, Inhabited

namespace Token

/-! ## The state of reading -/

/-- A node that may still become a key: its place among the tokens and in the text.  In a block, a
node at the indentation of its mapping must become one. -/
structure KeyStart where
  position : Nat
  required : Bool
  index : Nat
  line : Nat
  column : Nat
  deriving DecidableEq, Repr, Inhabited

/-- The state of reading tokens: where reading stands, the tokens so far with the newest first, the
positions of the nodes that became keys and whether each opens a mapping, how many brackets are
open, the indentation and those around it, whether a key may begin here, and the nodes that may
still become keys by the number of brackets around them. -/
structure Scan where
  cursor : Cursor
  tokens : List Token
  keys : OrderedMap Nat Bool
  depth : Nat
  indent : Int
  outer : List Int
  keyAllowed : Bool
  starts : OrderedMap Nat KeyStart
  deriving Repr, Inhabited

namespace Scan

/-- The start of a text. -/
def start (text : List Char) : Scan :=
  ⟨.start text, [], [], 0, -1, [], true, []⟩

/-- Appends a token. -/
def push (scan : Scan) (token : Token) : Scan :=
  { scan with tokens := token :: scan.tokens }

/-- Appends a token of some characters, and goes past them. -/
def take (scan : Scan) (size : Nat) (token : Token) : Scan :=
  { scan.push token with cursor := scan.cursor.skip size }

/-- Whether reading is between brackets. -/
def inFlow (scan : Scan) : Bool :=
  scan.depth != 0

/-- Whether a node can no longer become a key. -/
def isStale (scan : Scan) (start : KeyStart) : Bool :=
  start.line != scan.cursor.line || scan.cursor.index - start.index > 1024

/-- Forgets the nodes that can no longer become keys; none of them may have had to. -/
def forgetStale (scan : Scan) : Except Fault Scan :=
  if scan.starts.any fun pair => scan.isStale pair.2 && pair.2.required then .error .malformed
  else .ok { scan with starts := scan.starts.filter fun pair => !scan.isStale pair.2 }

/-- Forgets the node at this depth that might have become a key; it may not have had to. -/
def forgetStart (scan : Scan) : Except Fault Scan :=
  match OrderedMap.get? scan.starts scan.depth with
  | none => .ok scan
  | some start =>
    if start.required then .error .malformed
    else .ok { scan with starts := OrderedMap.erase scan.starts scan.depth }

/-- Remembers that the node that begins here may become a key. -/
def rememberStart (scan : Scan) : Except Fault Scan :=
  if scan.keyAllowed then
    scan.forgetStart.map fun cleared =>
      let start : KeyStart :=
        { position := scan.tokens.length
          required := !scan.inFlow && scan.indent == scan.cursor.column
          index := scan.cursor.index
          line := scan.cursor.line
          column := scan.cursor.column }
      { cleared with starts := OrderedMap.set cleared.starts scan.depth start }
  else .ok scan

/-- Closes the block collections that are indented deeper than a column. -/
def closeBlocks (column : Int) (scan : Scan) : Scan :=
  if scan.inFlow then scan
  else
    let deeper := (scan.indent :: scan.outer).takeWhile (column < ·)
    let around := (scan.indent :: scan.outer).dropWhile (column < ·)
    { scan with
      tokens := List.replicate deeper.length .blockEnd ++ scan.tokens
      indent := around.headD (-1)
      outer := around.drop 1 }

/-- Whether a column opens a block collection. -/
def opensBlock (scan : Scan) (column : Nat) : Bool :=
  !scan.inFlow && scan.indent < column

/-- The indentation of a column, inside the one so far. -/
def indentTo (column : Nat) (scan : Scan) : Scan :=
  { scan with indent := column, outer := scan.indent :: scan.outer }

/-- Opens a block collection here, unless one is open at this column. -/
def openBlock (token : Token) (scan : Scan) : Scan :=
  if scan.opensBlock scan.cursor.column then (scan.indentTo scan.cursor.column).push token
  else scan

/-- Allows or forbids a key to begin next. -/
def allowKey (allowed : Bool) (scan : Scan) : Scan :=
  { scan with keyAllowed := allowed }

end Scan

/-! ## Names and tags -/

/-- The characters of anchors and handles. -/
def isNameChar (c : Char) : Bool :=
  c.isAlphanum || c == '-' || c == '_'

/-- The name of an anchor or alias after its sign. -/
def readName (cursor : Cursor) : Except Fault (String × Cursor) :=
  let name := cursor.rest.takeWhile isNameChar
  let after := cursor.skip name.length
  if name.isEmpty then .error .malformed
  else if atBlank after.rest || after.rest.head?.any (fun c => "?:,]\x7d%@\x60".toList.contains c) then
    .ok (String.ofList name, after)
  else .error .malformed

/-- The characters of a tag. -/
def isTagChar (c : Char) : Bool :=
  c.isAlphanum || "-;/?:@&=+$,_.!~*'()[]%".toList.contains c

/-- Bytes that are written as a percent sign and two hexadecimal digits each. -/
def escapedBytes : List Char → Option (List UInt8 × List Char)
  | '%' :: a :: b :: rest =>
    match Json.hexValue? [a, b] with
    | none => none
    | some n => (escapedBytes rest).map fun (bytes, left) => (UInt8.ofNat n :: bytes, left)
  | '%' :: _ => none
  | cs => some ([], cs)

/-- The text of a tag with its escapes read. -/
def unescapeTag : Nat → List Char → Option (List Char)
  | 0, _ => none
  | fuel + 1, cs =>
    match cs with
    | [] => some []
    | '%' :: _ =>
      match escapedBytes cs with
      | none => none
      | some (bytes, left) =>
        match String.fromUTF8? ⟨bytes.toArray⟩ with
        | none => none
        | some text => (unescapeTag fuel left).map (text.toList ++ ·)
    | c :: rest => (unescapeTag fuel rest).map (c :: ·)

/-- The text of a tag. -/
def readTagText (cursor : Cursor) : Except Fault (String × Cursor) :=
  let text := cursor.rest.takeWhile isTagChar
  match text, unescapeTag (text.length + 1) text with
  | _ :: _, some cs => .ok (String.ofList cs, cursor.skip text.length)
  | _, _ => .error .malformed

/-- A handle: one exclamation mark before a space, or two with a name between them. -/
def readHandle (cursor : Cursor) : Except Fault (String × Cursor) :=
  match cursor.rest with
  | '!' :: ' ' :: _ => .ok ("!", cursor.next)
  | '!' :: rest =>
    let name := rest.takeWhile isNameChar
    match rest.dropWhile isNameChar with
    | '!' :: _ => .ok (String.ofList ('!' :: name ++ ['!']), cursor.skip (name.length + 2))
    | _ => .error .malformed
  | _ => .error .malformed

/-- A tag and what follows it. -/
def readTag (cursor : Cursor) : Except Fault (Token × Cursor) := do
  let (token, after) ←
    match cursor.rest with
    | _ :: '<' :: _ =>
      match readTagText (cursor.skip 2) with
      | .error fault => .error fault
      | .ok (name, left) =>
        match left.rest with
        | '>' :: _ => .ok (Token.tag none name, left.next)
        | _ => .error .malformed
    | _ :: rest =>
      if atBlank rest then .ok (Token.tag none "!", cursor.next)
      else
        let hasHandle := (rest.takeWhile fun c => !(c == ' ' || isBreak c)).contains '!'
        match if hasHandle then readHandle cursor else .ok ("!", cursor.next) with
        | .error fault => .error fault
        | .ok (handle, left) =>
          (readTagText left).map fun (name, end_) => (Token.tag (some handle) name, end_)
    | [] => .error .malformed
  if atSpace after.rest then return (token, after) else .error .malformed

/-! ## Directives -/

/-- A number of a version. -/
def readVersionPart (cursor : Cursor) : Except Fault (Nat × Cursor) :=
  let digits := cursor.rest.takeWhile Char.isDigit
  if digits.isEmpty then .error .malformed
  else .ok (Json.decimalValue digits, cursor.skip digits.length)

/-- The version that a directive names. -/
def readVersion (cursor : Cursor) : Except Fault (Directive × Cursor) := do
  let (major, afterMajor) ← readVersionPart (cursor.skipWhile (· == ' '))
  match afterMajor.rest with
  | '.' :: _ =>
    let (_, afterMinor) ← readVersionPart afterMajor.next
    if atSpace afterMinor.rest then return (.version major, afterMinor) else .error .malformed
  | _ => .error .malformed

/-- The handle that a directive declares. -/
def readHandleMeaning (cursor : Cursor) : Except Fault (Directive × Cursor) := do
  let (handle, afterHandle) ← readHandle (cursor.skipWhile (· == ' '))
  match afterHandle.rest with
  | ' ' :: _ =>
    let (meaning, left) ← readTagText (afterHandle.skipWhile (· == ' '))
    if atSpace left.rest then return (.handle handle meaning, left) else .error .malformed
  | _ => .error .malformed

/-- A directive with its line. -/
def readDirective (cursor : Cursor) : Except Fault (Directive × Cursor) := do
  let name := cursor.next.rest.takeWhile isNameChar
  let afterName := cursor.next.skip name.length
  if name.isEmpty || !atSpace afterName.rest then .error .malformed
  else
    let (given, after) ←
      match String.ofList name with
      | "YAML" => readVersion afterName
      | "TAG" => readHandleMeaning afterName
      | _ => .ok (.other, afterName.skipLine)
    let left ← emptyLine after
    return (given, left)

/-! ## Single tokens -/

namespace Scan

/-- Past spaces, comments and line ends, up to the next token.  After a line end a key may begin,
outside of brackets. -/
def toToken : Nat → Scan → Scan
  | 0, scan => scan
  | fuel + 1, scan =>
    let inner := (scan.cursor.skipWhile (· == ' ')).skipComment
    match inner.lineBreak? with
    | none => { scan with cursor := inner }
    | some (_, after) =>
      toToken fuel { scan with cursor := after, keyAllowed := scan.keyAllowed || !scan.inFlow }

/-- A token between documents. -/
def documentToken (scan : Scan) (token : Token) : Except Fault Scan :=
  (scan.closeBlocks (-1)).forgetStart.map fun closed => (closed.allowKey false).take 3 token

/-- A directive. -/
def directiveToken (scan : Scan) : Except Fault Scan := do
  let closed ← (scan.closeBlocks (-1)).forgetStart
  let (given, after) ← readDirective scan.cursor
  return { (closed.allowKey false).push (.directive given) with cursor := after }

/-- An opening bracket. -/
def openBracket (scan : Scan) (token : Token) : Except Fault Scan :=
  scan.rememberStart.map fun kept =>
    { (kept.allowKey true).take 1 token with depth := scan.depth + 1 }

/-- A closing bracket. -/
def closeBracket (scan : Scan) (token : Token) : Except Fault Scan :=
  scan.forgetStart.map fun kept =>
    { (kept.allowKey false).take 1 token with depth := scan.depth - 1 }

/-- The comma between the parts of a flow collection. -/
def commaToken (scan : Scan) : Except Fault Scan :=
  scan.forgetStart.map fun kept => (kept.allowKey true).take 1 .comma

/-- The hyphen before an item of a block. -/
def entryToken (scan : Scan) : Except Fault Scan :=
  if !scan.inFlow && !scan.keyAllowed then .error .malformed
  else ((scan.openBlock .listStart).forgetStart).map fun kept =>
    (kept.allowKey true).take 1 .entry

/-- The question mark before a key. -/
def keyToken (scan : Scan) : Except Fault Scan :=
  if !scan.inFlow && !scan.keyAllowed then .error .malformed
  else ((scan.openBlock .mapStart).forgetStart).map fun kept =>
    (kept.allowKey (!scan.inFlow)).take 1 .key

/-- The colon before a value.  The node before it becomes a key if it still can; a mapping opens at
the column of its first key. -/
def valueToken (scan : Scan) : Except Fault Scan :=
  match OrderedMap.get? scan.starts scan.depth with
  | some start =>
    let opens := scan.opensBlock start.column
    let kept := { scan with
      starts := OrderedMap.erase scan.starts scan.depth
      keys := OrderedMap.set scan.keys start.position opens }
    let indented := if opens then kept.indentTo start.column else kept
    .ok ((indented.allowKey false).take 1 .value)
  | none =>
    if !scan.inFlow && !scan.keyAllowed then .error .malformed
    else
      .ok (((scan.openBlock .mapStart).allowKey (!scan.inFlow)).take 1 .value)

/-- A token that is read as a whole and may be a key or the beginning of one. -/
def nodeToken (scan : Scan) (token : Token) (after : Cursor) : Except Fault Scan :=
  scan.rememberStart.map fun kept => { (kept.allowKey false).push token with cursor := after }

/-- An anchor or alias. -/
def nameToken (scan : Scan) (token : String → Token) : Except Fault Scan := do
  let (name, after) ← readName scan.cursor.next
  scan.nodeToken (token name) after

/-- A tag. -/
def tagToken (scan : Scan) : Except Fault Scan := do
  let (token, after) ← readTag scan.cursor
  scan.nodeToken token after

/-- A block scalar. -/
def blockToken (scan : Scan) (folded : Bool) : Except Fault Scan := do
  let kept ← scan.forgetStart
  let (text, after) ← blockScalar folded scan.indent scan.cursor
  return { (kept.allowKey true).push (.scalar text false) with cursor := after }

/-- A quoted scalar. -/
def quotedToken (scan : Scan) (quote : Char) : Except Fault Scan := do
  let (text, after) ← quotedScalar quote scan.cursor
  scan.nodeToken (.scalar text false) after

/-- A plain scalar.  After a line end that follows it a key may begin. -/
def plainToken (scan : Scan) : Except Fault Scan :=
  let plain := plainScalar scan.inFlow (scan.indent + 1).toNat scan.cursor
  (scan.nodeToken (.scalar (String.ofList plain.text) true) plain.cursor).map
    (allowKey plain.crossed)

/-- The token that begins here. -/
def nextToken (scan : Scan) : Except Fault Scan :=
  match scan.cursor.rest with
  | [] => .error .malformed
  | c :: rest =>
    let indicates := scan.inFlow || atBlank rest
    if c = '%' ∧ scan.cursor.column = 0 then scan.directiveToken
    else if scan.cursor.atMark '-' then scan.documentToken .documentStart
    else if scan.cursor.atMark '.' then scan.documentToken .documentEnd
    else if c = '[' then scan.openBracket .flowListStart
    else if c = '{' then scan.openBracket .flowMapStart
    else if c = ']' then scan.closeBracket .flowListEnd
    else if c = '}' then scan.closeBracket .flowMapEnd
    else if c = ',' then scan.commaToken
    else if c = '-' ∧ atBlank rest then scan.entryToken
    else if c = '?' ∧ indicates then scan.keyToken
    else if c = ':' ∧ indicates then scan.valueToken
    else if c = '*' then scan.nameToken .alias
    else if c = '&' then scan.nameToken .anchor
    else if c = '!' then scan.tagToken
    else if c = '|' ∧ !scan.inFlow then scan.blockToken false
    else if c = '>' ∧ !scan.inFlow then scan.blockToken true
    else if c = '\'' ∨ c = '"' then scan.quotedToken c
    else if startsPlain scan.inFlow scan.cursor.rest then scan.plainToken
    else .error .malformed

/-- The end of the text. -/
def finish (scan : Scan) : Except Fault Scan :=
  (scan.closeBlocks (-1)).forgetStart.map fun closed => closed.push .textEnd

/-- All tokens from here on, and the fault at which reading stops, if it does.  Every token but the
last one takes a character at least, so that `fuel` also bounds the lines before the next token. -/
def run : Nat → Scan → Scan × Option Fault
  | 0, scan => (scan, some .malformed)
  | fuel + 1, scan =>
    match (scan.toToken (fuel + 1)).forgetStale with
    | .error fault => (scan, some fault)
    | .ok ready =>
      let closed := ready.closeBlocks ready.cursor.column
      match closed.cursor.rest with
      | [] =>
        match closed.finish with
        | .ok done => (done, none)
        | .error fault => (scan, some fault)
      | _ =>
        match closed.nextToken with
        | .ok after => run fuel after
        | .error fault => (scan, some fault)

/-- The tokens in order, from a position on, with those put in that mark keys. -/
def markKeys (keys : OrderedMap Nat Bool) : Nat → List Token → List Token
  | _, [] => []
  | position, token :: rest =>
    let marks : List Token := match OrderedMap.get? keys position with
      | some true => [.mapStart, .key]
      | some false => [.key]
      | none => []
    marks ++ token :: markKeys keys (position + 1) rest

end Scan

/-- The tokens of a text, and the fault at which reading stops, if it does. -/
def ofText (text : List Char) : List Token × Option Fault :=
  let (scan, fault) := (Scan.start text).run (text.length + 2)
  (Scan.markKeys scan.keys 0 scan.tokens.reverse, fault)

end Token

end DesignTokens.Yaml
