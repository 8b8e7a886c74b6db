import DesignTokens.Json.Basic
/-!
# Reading JSON

A reader for JSON text that also takes the words `NaN`, `Infinity` and `-Infinity`.  A text that is
no JSON is refused with the first complaint and the line and column it concerns.  What happens to a
key that occurs twice in one object is the caller's policy.

The reader works on the characters still to be read.  A complaint carries how many of them were
left, which the outermost function turns into a place in the text.
-/

set_option autoImplicit false

namespace DesignTokens.Json

/-- What a reader says of the text that it cannot read. -/
inductive Complaint where
  | expectingValue
  | expectingName
  | expectingColon
  | expectingComma
  | unterminatedString
  | controlCharacter
  | invalidEscape
  | invalidUnicodeEscape
  | extraData
  | byteOrderMark
  deriving DecidableEq, Repr, Inhabited

/-- The wording of a complaint. -/
def Complaint.message : Complaint → String
  | .expectingValue => "Expecting value"
  | .expectingName => "Expecting property name enclosed in double quotes"
  | .expectingColon => "Expecting ':' delimiter"
  | .expectingComma => "Expecting ',' delimiter"
  | .unterminatedString => "Unterminated string starting at"
  | .controlCharacter => "Invalid control character at"
  | .invalidEscape => "Invalid \\escape"
  | .invalidUnicodeEscape => "Invalid \\uXXXX escape"
  | .extraData => "Extra data"
  | .byteOrderMark => "Unexpected UTF-8 BOM (decode using utf-8-sig)"

/-- Why reading stops: a complaint at the place where `remaining` characters are left, a key that
occurs twice, or an integer with more digits than the reader takes. -/
inductive Stop where
  | complaint (what : Complaint) (remaining : Nat)
  | repeatedKey (key : String)
  | integerTooLong
  deriving DecidableEq, Repr, Inhabited

/-- A place in a text; lines and columns count from one, characters from zero. -/
structure Place where
  line : Nat
  column : Nat
  offset : Nat
  deriving DecidableEq, Repr, Inhabited

/-- Why a text is refused. -/
inductive ReadFault where
  | malformed (what : Complaint) (place : Place)
  | repeatedKey (key : String)
  | integerTooLong
  deriving DecidableEq, Repr, Inhabited

/-- What to do with an object that has a key twice. -/
inductive KeyPolicy where
  | refuse
  | keepLast
  deriving DecidableEq, Repr, Inhabited

/-! ## Blanks and digits -/

/-- The blanks that may stand between the parts of a text. -/
def isSpace (c : Char) : Bool :=
  c == ' ' || c == '\t' || c == '\n' || c == '\r'

/-- The text from its first character that is no blank. -/
def skipSpace (cs : List Char) : List Char :=
  cs.dropWhile isSpace

/-- The number that a run of decimal digits writes. -/
def decimalValue (cs : List Char) : Nat :=
  cs.foldl (fun n c => 10 * n + (c.toNat - '0'.toNat)) 0

/-- The value of a hexadecimal digit of either case. -/
def hexDigitValue? (c : Char) : Option Nat :=
  if '0' ≤ c ∧ c ≤ '9' then some (c.toNat - '0'.toNat)
  else if 'a' ≤ c ∧ c ≤ 'f' then some (c.toNat - 'a'.toNat + 10)
  else if 'A' ≤ c ∧ c ≤ 'F' then some (c.toNat - 'A'.toNat + 10)
  else none

/-- The number that hexadecimal digits write. -/
def hexValue? (cs : List Char) : Option Nat :=
  cs.foldlM (fun n c => (hexDigitValue? c).map (16 * n + ·)) 0

/-! ## Strings -/

/-- The character that a one-letter escape stands for. -/
def simpleEscape? : Char → Option Char
  | '"' => some '"'
  | '\\' => some '\\'
  | '/' => some '/'
  | 'b' => some '\x08'
  | 'f' => some '\x0c'
  | 'n' => some '\n'
  | 'r' => some '\r'
  | 't' => some '\t'
  | _ => none

/-- The UTF-16 units and code points of a string up to its closing quote; `opening` is the number
of characters left at its opening quote.  An escape of four hexadecimal digits needs a character
after it. -/
def readUnits (opening : Nat) : List Char → Except Stop (List Nat × List Char)
  | [] => .error (.complaint .unterminatedString opening)
  | c :: rest =>
    if c = '"' then
      .ok ([], rest)
    else if c = '\\' then
      match rest with
      | [] => .error (.complaint .unterminatedString opening)
      | e :: afterLetter =>
        if e = 'u' then
          match afterLetter with
          | h1 :: h2 :: h3 :: h4 :: next :: afterDigits =>
            match hexValue? [h1, h2, h3, h4] with
            | some unit =>
              (readUnits opening (next :: afterDigits)).map fun (units, left) =>
                (unit :: units, left)
            | none => .error (.complaint .invalidUnicodeEscape rest.length)
          | _ => .error (.complaint .invalidUnicodeEscape rest.length)
        else
          match simpleEscape? e with
          | some d =>
            (readUnits opening afterLetter).map fun (units, left) => (d.toNat :: units, left)
          | none => .error (.complaint .invalidEscape (rest.length + 1))
    else if c.toNat ≤ 0x1F then
      .error (.complaint .controlCharacter (rest.length + 1))
    else
      (readUnits opening rest).map fun (units, left) => (c.toNat :: units, left)

/-- The code points of a string.  Surrogates that stand alone are among them. -/
abbrev CodePoints := List Nat

/-- Joins each high surrogate with a low one right after it. -/
def joinSurrogates : List Nat → CodePoints
  | [] => []
  | [unit] => [unit]
  | high :: low :: rest =>
    if 0xD800 ≤ high ∧ high ≤ 0xDBFF ∧ 0xDC00 ≤ low ∧ low ≤ 0xDFFF then
      (0x10000 + (high - 0xD800) * 0x400 + (low - 0xDC00)) :: joinSurrogates rest
    else
      high :: joinSurrogates (low :: rest)

/-- The character of a code point.  A surrogate that stands alone is none and becomes U+FFFD: what
is known of texts holds of those that spell no such surrogate. -/
def charOfPoint (point : Nat) : Char :=
  if 0xD800 ≤ point ∧ point ≤ 0xDFFF then Char.ofNat 0xFFFD else Char.ofNat point

/-- The text of code points, which tells them all if no surrogate stands alone among them. -/
def textOf (points : CodePoints) : String :=
  String.ofList (points.map charOfPoint)

/-- The code points of a string after its opening quote. -/
def readPoints (opening : Nat) (cs : List Char) : Except Stop (CodePoints × List Char) :=
  (readUnits opening cs).map fun (units, left) => (joinSurrogates units, left)

/-- A string after its opening quote. -/
def readString (opening : Nat) (cs : List Char) : Except Stop (String × List Char) :=
  (readPoints opening cs).map fun (points, left) => (textOf points, left)

/-! ## Numbers -/

/-- The parts of a number as written. -/
structure NumberText where
  negative : Bool
  whole : List Char
  fraction : Option (List Char)
  power : Option Int
  deriving DecidableEq, Repr, Inhabited

/-- The fraction of a number: a point and at least one digit, or nothing. -/
def readFraction (cs : List Char) : Option (List Char) × List Char :=
  match cs with
  | '.' :: rest =>
    let digits := rest.takeWhile Char.isDigit
    if digits.isEmpty then (none, cs) else (some digits, rest.dropWhile Char.isDigit)
  | _ => (none, cs)

/-- The power of a number: a mark, a sign if any, and at least one digit, or nothing. -/
def readPower (cs : List Char) : Option Int × List Char :=
  match cs with
  | [] => (none, cs)
  | mark :: rest =>
    if mark = 'e' ∨ mark = 'E' then
      let (negative, unsigned) : Bool × List Char :=
        match rest with
        | '-' :: more => (true, more)
        | '+' :: more => (false, more)
        | _ => (false, rest)
      let digits := unsigned.takeWhile Char.isDigit
      if digits.isEmpty then (none, cs)
      else
        let size : Int := decimalValue digits
        (some (if negative then -size else size), unsigned.dropWhile Char.isDigit)
    else
      (none, cs)

/-- The digits before the point: a zero alone, or digits that do not begin with zero. -/
def readWhole (cs : List Char) : Option (List Char × List Char) :=
  match cs with
  | '0' :: rest => some (['0'], rest)
  | c :: _ =>
    if c.isDigit then some (cs.takeWhile Char.isDigit, cs.dropWhile Char.isDigit) else none
  | [] => none

/-- The longest number at the front of a text. -/
def readNumberText? (cs : List Char) : Option (NumberText × List Char) :=
  let (negative, unsigned) : Bool × List Char :=
    match cs with
    | '-' :: rest => (true, rest)
    | _ => (false, cs)
  (readWhole unsigned).map fun (whole, afterWhole) =>
    let (fraction, afterFraction) := readFraction afterWhole
    let (power, left) := readPower afterFraction
    (⟨negative, whole, fraction, power⟩, left)

/-- The value of a number: an integer if it has neither fraction nor power. -/
def NumberText.value (n : NumberText) : Except Stop Json :=
  match n.fraction, n.power with
  | none, none =>
    if n.whole.length > maxIntegerDigits then .error .integerTooLong
    else
      let size : Int := decimalValue n.whole
      .ok (.int (if n.negative then -size else size))
  | fraction, power =>
    let digits := fraction.getD []
    .ok (.float (Binary64.ofDecimal n.negative (decimalValue (n.whole ++ digits))
      (power.getD 0 - digits.length)))

/-- The text after a word, if it begins with the word. -/
def afterWord? : List Char → List Char → Option (List Char)
  | [], cs => some cs
  | _ :: _, [] => none
  | w :: word, c :: cs => if w = c then afterWord? word cs else none

/-- The words that stand for values. -/
def wordValues : List (String × Json) :=
  [("null", .null), ("true", .bool true), ("false", .bool false), ("NaN", .float Binary64.nan),
    ("Infinity", .float (Binary64.infinite false)), ("-Infinity", .float (Binary64.infinite true))]

/-- A word or a number. -/
def readAtom (cs : List Char) : Except Stop (Json × List Char) :=
  match wordValues.findSome? fun (word, value) => (afterWord? word.toList cs).map (value, ·) with
  | some found => .ok found
  | none =>
    match readNumberText? cs with
    | some (number, left) => number.value.map (·, left)
    | none => .error (.complaint .expectingValue cs.length)

/-! ## Values -/

/-- The pairs of an object as they stand in the text.  Keys are told apart by their code points. -/
abbrev Members := OrderedMap CodePoints Json

/-- The fields that pairs make. -/
def fieldsOf (members : Members) : Fields :=
  members.map fun member => (textOf member.1, member.2)

/-- The fields of an object that has just closed. -/
def KeyPolicy.settle (policy : KeyPolicy) (members : Members) : Except Stop Fields :=
  match policy with
  | .keepLast => .ok (fieldsOf (OrderedMap.ofPairs members))
  | .refuse =>
    match firstRepeated [] (OrderedMap.keys members) with
    | some key => .error (.repeatedKey (textOf key))
    | none => .ok (fieldsOf members)

mutual

/-- A value at the front of a text.  Of two nested calls one reads at least one character, so twice
the length of the text bounds their depth. -/
def readValue (policy : KeyPolicy) : Nat → List Char → Except Stop (Json × List Char)
  | 0, cs => .error (.complaint .expectingValue cs.length)
  | fuel + 1, cs =>
    match cs with
    | '"' :: rest => (readString cs.length rest).map fun (s, left) => (.str s, left)
    | '{' :: rest =>
      match skipSpace rest with
      | '}' :: left => .ok (.obj [], left)
      | inside => do
        let (members, left) ← readMembers policy fuel inside
        let fields ← policy.settle members
        return (.obj fields, left)
    | '[' :: rest =>
      match skipSpace rest with
      | ']' :: left => .ok (.arr [], left)
      | inside => (readItems policy fuel inside).map fun (items, left) => (.arr items, left)
    | _ => readAtom cs

/-- The pairs of an object, from the first key to the closing brace. -/
def readMembers (policy : KeyPolicy) : Nat → List Char → Except Stop (Members × List Char)
  | 0, cs => .error (.complaint .expectingName cs.length)
  | fuel + 1, cs =>
    match cs with
    | '"' :: rest => do
      let (key, afterKey) ← readPoints cs.length rest
      match skipSpace afterKey with
      | ':' :: afterColon =>
        let (value, afterValue) ← readValue policy fuel (skipSpace afterColon)
        match skipSpace afterValue with
        | '}' :: left => return ([(key, value)], left)
        | ',' :: afterComma =>
          let (members, left) ← readMembers policy fuel (skipSpace afterComma)
          return ((key, value) :: members, left)
        | other => .error (.complaint .expectingComma other.length)
      | other => .error (.complaint .expectingColon other.length)
    | _ => .error (.complaint .expectingName cs.length)

/-- The items of an array, from the first one to the closing bracket. -/
def readItems (policy : KeyPolicy) : Nat → List Char → Except Stop (List Json × List Char)
  | 0, cs => .error (.complaint .expectingValue cs.length)
  | fuel + 1, cs => do
    let (value, afterValue) ← readValue policy fuel cs
    match skipSpace afterValue with
    | ']' :: left => return ([value], left)
    | ',' :: afterComma =>
      let (items, left) ← readItems policy fuel (skipSpace afterComma)
      return (value :: items, left)
    | other => .error (.complaint .expectingComma other.length)

end

/-- A whole text: one value with nothing but blanks around it. -/
def readDocument (policy : KeyPolicy) (cs : List Char) : Except Stop Json :=
  match cs with
  | '\uFEFF' :: _ => .error (.complaint .byteOrderMark cs.length)
  | _ => do
    let (value, left) ← readValue policy (2 * cs.length + 1) (skipSpace cs)
    match skipSpace left with
    | [] => return value
    | extra => .error (.complaint .extraData extra.length)

/-- The place before which the given characters stand. -/
def placeAfter (before : List Char) : Place :=
  ⟨before.count '\n' + 1, (before.reverse.takeWhile (· != '\n')).length + 1, before.length⟩

/-- Reads a text as one JSON value. -/
def read (policy : KeyPolicy) (text : String) : Except ReadFault Json :=
  let cs := text.toList
  (readDocument policy cs).mapError fun
    | .complaint what remaining => .malformed what (placeAfter (cs.take (cs.length - remaining)))
    | .repeatedKey key => .repeatedKey key
    | .integerTooLong => .integerTooLong

end DesignTokens.Json
