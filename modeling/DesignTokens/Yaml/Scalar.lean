import DesignTokens.Datum
import DesignTokens.Decimal.Parse
import DesignTokens.Yaml.Fault
/-!
# Scalars of YAML

What a scalar stands for.  An unquoted scalar is tagged by the way it is written: as null, a truth
value, an integer, a floating point number, a timestamp, one of two marks, or a text.  Reading a
scalar under its tag gives its value; some scalars are written well and have none, such as a day
that is not in the calendar.
-/

set_option autoImplicit false

namespace DesignTokens.Yaml

/-- What a node is said to be.  The merge mark `<<` and the default mark `=` are kinds of their own;
`unknown` is every tag that has no meaning here. -/
inductive Tag where
  | null
  | truth
  | integer
  | float
  | timestamp
  | text
  | merge
  | default
  | list
  | map
  | unknown
  deriving DecidableEq, Repr, Inhabited

/-! ## Null and truth values -/

/-- The spellings of null; the empty scalar is one of them. -/
def nullWords : List String := ["", "~", "null", "Null", "NULL"]

/-- The words for the truth values, in lower case. -/
def truthWords : List (String × Bool) :=
  [("yes", true), ("no", false), ("true", true), ("false", false), ("on", true), ("off", false)]

/-- A word may be written in lower case, capitalised, or in upper case. -/
def spellings (word : String) : List String :=
  let upper := word.toList.map Char.toUpper
  [word, String.ofList (upper.take 1 ++ word.toList.drop 1), String.ofList upper]

/-- Whether a text is a word for a truth value. -/
def isTruth (text : String) : Bool :=
  truthWords.any fun pair => (spellings pair.1).contains text

/-- The truth value of a word, in any case. -/
def readTruth (text : String) : Except ScalarFault Bool :=
  match truthWords.find? fun pair => pair.1 == String.ofList (text.toList.map Char.toLower) with
  | some (_, b) => .ok b
  | none => .error .noTruthValue

/-! ## Numbers -/

/-- A sign, and the text after it. -/
def splitSign : List Char → Bool × List Char
  | '-' :: rest => (true, rest)
  | '+' :: rest => (false, rest)
  | cs => (false, cs)

/-- Digits may be grouped by underscores. -/
def isGrouped (isDigit : Char → Bool) (cs : List Char) : Bool :=
  cs.all fun c => isDigit c || c == '_'

/-- Digits of a base. -/
def isBinary (c : Char) : Bool := c == '0' || c == '1'

@[inherit_doc isBinary]
def isOctal (c : Char) : Bool := '0' ≤ c && c ≤ '7'

@[inherit_doc isBinary]
def isHexadecimal (c : Char) : Bool := (Json.hexDigitValue? c).isSome

/-- Whether a text is written as an integer in binary, octal, hexadecimal or decimal digits. -/
def isNatural (cs : List Char) : Bool :=
  match cs with
  | ['0'] => true
  | '0' :: 'b' :: digits => !digits.isEmpty && isGrouped isBinary digits
  | '0' :: 'x' :: digits => !digits.isEmpty && isGrouped isHexadecimal digits
  | '0' :: digits => isGrouped isOctal digits
  | c :: digits => c.isDigit && isGrouped Char.isDigit digits
  | [] => false

/-- Whether a text is a further place of a number in base sixty. -/
def isSixtieth : List Char → Bool
  | [d] => d.isDigit
  | [t, d] => '0' ≤ t && t ≤ '5' && d.isDigit
  | _ => false

/-- Whether a text is written as an integer in base sixty, whose places are separated by colons. -/
def isSexagesimal (cs : List Char) : Bool :=
  match Text.splitAtChar ':' cs with
  | (c :: first) :: second :: places =>
    c.isDigit && c != '0' && isGrouped Char.isDigit first && (second :: places).all isSixtieth
  | _ => false

/-- Whether a text is written as an integer. -/
def isInteger (text : String) : Bool :=
  let digits := (splitSign text.toList).2
  isNatural digits || isSexagesimal digits

/-- The number that decimal digits write, if they are not too many. -/
def readDecimal (cs : List Char) : Except ScalarFault Int :=
  if Json.maxIntegerDigits < cs.countP Text.isDigit then .error .integerTooLong
  else (Decimal.wholeNumber? 10 cs).elim (.error .noNumber) .ok

/-- The number that digits of another base write. -/
def readBased (base : Nat) (cs : List Char) : Except ScalarFault Int :=
  (Decimal.wholeNumber? base cs).elim (.error .noNumber) .ok

/-- The integer that a text without its sign writes, once its groups have been joined. -/
def readUnsigned (cs : List Char) : Except ScalarFault Int :=
  match cs with
  | [] => .error .emptyNumber
  | '0' :: 'b' :: digits => readBased 2 digits
  | '0' :: 'x' :: digits => readBased 16 digits
  | '0' :: _ => readBased 8 cs
  | _ => (Text.splitAtChar ':' cs).foldlM (fun n place => (readDecimal place).map (60 * n + ·)) 0

/-- A text without the underscores that group digits. -/
def joinGroups (text : String) : List Char :=
  text.toList.filter (· != '_')

/-- The integer that a text writes. -/
def readInteger (text : String) : Except ScalarFault Int :=
  let (negative, digits) := splitSign (joinGroups text)
  (readUnsigned digits).map fun n => if negative then -n else n

/-- Whether a text is the exponent of a number: nothing, or a mark, a sign and digits. -/
def isExponent (cs : List Char) : Bool :=
  match cs with
  | [] => true
  | mark :: sign :: digits =>
    (mark == 'e' || mark == 'E') && (sign == '+' || sign == '-') && !digits.isEmpty &&
      digits.all Char.isDigit
  | _ => false

/-- Whether a character is a digit or groups digits. -/
def isDigitOrGroup (c : Char) : Bool :=
  c.isDigit || c == '_'

/-- Whether a text is written as digits with a point among or around them.  A sign asks for a digit
before the point. -/
def isPointed (hasSign : Bool) (cs : List Char) : Bool :=
  let whole := cs.takeWhile isDigitOrGroup
  match cs.dropWhile isDigitOrGroup with
  | '.' :: afterPoint =>
    let startsWell := match whole with
      | c :: _ => c.isDigit
      | [] => !hasSign && afterPoint.head?.any Char.isDigit
    startsWell && isExponent (afterPoint.dropWhile isDigitOrGroup)
  | _ => false

/-- Whether a text is written in base sixty, with a point in its last place. -/
def isPointedSexagesimal (cs : List Char) : Bool :=
  match Text.splitAtChar ':' cs with
  | (c :: first) :: second :: places =>
    let further := second :: places
    let last := further.getLastD []
    c.isDigit && isGrouped Char.isDigit first && further.dropLast.all isSixtieth &&
      isSixtieth (last.takeWhile (· != '.')) &&
      match last.dropWhile (· != '.') with
      | _ :: fraction => isGrouped Char.isDigit fraction
      | [] => false
  | _ => false

/-- Whether a text is written as a floating point number: digits with a point, or one of the words
for what is not finite. -/
def isFloat (text : String) : Bool :=
  let cs := text.toList
  let unsigned := (splitSign cs).2
  [".inf", ".Inf", ".INF"].contains (String.ofList unsigned) ||
    [".nan", ".NaN", ".NAN"].contains text ||
    isPointed (unsigned.length < cs.length) unsigned || isPointedSexagesimal unsigned

/-- The floating point number that places in base sixty write, the last place first. -/
def placesValue (value : Binary64) (weight : Nat) :
    List Binary64 → Except ScalarFault Binary64
  | [] => .ok value
  | place :: places =>
    let scale := Binary64.ofInt weight
    if scale.isFinite then placesValue (value.plus (place.times scale)) (60 * weight) places
    else .error .tooManyPlaces

/-- The floating point number that a text in base sixty writes. -/
def readPlaces (cs : List Char) : Except ScalarFault Binary64 :=
  match (Text.splitAtChar ':' cs).mapM fun place => Decimal.parse? (String.ofList place) with
  | some places => placesValue (Binary64.ofMagnitude false 0) 1 places.reverse
  | none => .error .noNumber

/-- The floating point number that a text writes. -/
def readFloat (text : String) : Except ScalarFault Binary64 :=
  let (negative, unsigned) := splitSign ((joinGroups text).map Char.toLower)
  let word := String.ofList unsigned
  let size : Except ScalarFault Binary64 :=
    if (joinGroups text).isEmpty then .error .emptyNumber
    else if word = ".inf" then .ok (Binary64.infinite false)
    else if word = ".nan" then .ok Binary64.nan
    else if unsigned.contains ':' then readPlaces unsigned
    else (Decimal.parse? word).elim (.error .noNumber) .ok
  size.map fun x => if negative then x.negate else x

/-! ## Timestamps -/

/-- A timestamp as written.  The zone is its offset in minutes. -/
structure TimestampText where
  year : List Char
  month : List Char
  day : List Char
  time : Option (List (List Char) × Option Int)
  deriving DecidableEq, Repr, Inhabited

/-- The digits at the front of a text, `most` of them at most; there must be `least`. -/
def digitRun? (least most : Nat) (cs : List Char) : Option (List Char × List Char) :=
  let digits := (cs.take most).takeWhile Char.isDigit
  if least ≤ digits.length then some (digits, cs.drop digits.length) else none

/-- The text after a character. -/
def afterChar? (c : Char) : List Char → Option (List Char)
  | d :: rest => if d = c then some rest else none
  | [] => none

/-- Whether a character is a space or a tab. -/
def isSpaceOrTab (c : Char) : Bool := c == ' ' || c == '\t'

/-- The zone at the end of a timestamp: nothing, the letter of universal time, or a sign, hours, and
minutes if any. -/
def zone? (cs : List Char) : Option (Option Int) :=
  match cs.dropWhile isSpaceOrTab with
  | [] => if cs.isEmpty then some none else none
  | ['Z'] => some (some 0)
  | sign :: rest =>
    if sign = '-' ∨ sign = '+' then do
      let (hours, afterHours) ← digitRun? 1 2 rest
      let minutes ← match afterHours with
        | [] => some ['0']
        | ':' :: digits =>
          match digitRun? 2 2 digits with
          | some (minutes, []) => some minutes
          | _ => none
        | _ => none
      let offset : Int := 60 * Json.decimalValue hours + Json.decimalValue minutes
      return some (if sign = '-' then -offset else offset)
    else none

/-- The fraction of a second: nothing, or a point and digits if any. -/
def secondFraction (cs : List Char) : List Char × List Char :=
  match cs with
  | '.' :: rest => (rest.takeWhile Char.isDigit, rest.dropWhile Char.isDigit)
  | _ => ([], cs)

/-- The time of a timestamp: hours, minutes, seconds and their fraction, and the zone. -/
def timeOfDay? (cs : List Char) : Option (List (List Char) × Option Int) := do
  let afterMark ← match cs with
    | 'T' :: rest | 't' :: rest => some rest
    | c :: _ => if isSpaceOrTab c then some (cs.dropWhile isSpaceOrTab) else none
    | [] => none
  let (hour, afterHour) ← digitRun? 1 2 afterMark
  let (minute, afterMinute) ← digitRun? 2 2 (← afterChar? ':' afterHour)
  let (second, afterSecond) ← digitRun? 2 2 (← afterChar? ':' afterMinute)
  let (fraction, afterFraction) := secondFraction afterSecond
  let zone ← zone? afterFraction
  return ([hour, minute, second, fraction], zone)

/-- The parts of a timestamp. -/
def timestampText? (text : String) : Option TimestampText := do
  let (year, afterYear) ← digitRun? 4 4 text.toList
  let (month, afterMonth) ← digitRun? 1 2 (← afterChar? '-' afterYear)
  let (day, afterDay) ← digitRun? 1 2 (← afterChar? '-' afterMonth)
  if afterDay.isEmpty then
    return ⟨year, month, day, none⟩
  else
    let time ← timeOfDay? afterDay
    return ⟨year, month, day, some time⟩

/-- Whether a text is written as a timestamp; a day alone needs two digits for month and day. -/
def isTimestamp (text : String) : Bool :=
  match timestampText? text with
  | some parts => parts.time.isSome || (parts.month.length == 2 && parts.day.length == 2)
  | none => false

/-- The microseconds that the digits of a fraction write; digits after the sixth do not count. -/
def microseconds (fraction : List Char) : Nat :=
  Json.decimalValue ((fraction ++ List.replicate 6 '0').take 6)

/-- The day or moment that a text writes. -/
def readTimestamp (text : String) : Except ScalarFault Datum :=
  match timestampText? text with
  | none => .error .noTimestamp
  | some parts =>
    let number (cs : List Char) : Nat := Json.decimalValue cs
    match Day.of? (number parts.year) (number parts.month) (number parts.day), parts.time with
    | some day, some ([hour, minute, second, fraction], zone) =>
      match Moment.of? day (number hour) (number minute) (number second)
          (microseconds fraction) zone with
      | some moment => .ok (.moment moment)
      | none => .error .notInCalendar
    | some day, _ => .ok (.day day)
    | none, _ => .error .notInCalendar

/-! ## Tags and values -/

/-- The tag of an unquoted scalar. -/
def Tag.ofPlain (text : String) : Tag :=
  if nullWords.contains text then .null
  else if isTruth text then .truth
  else if isFloat text then .float
  else if isInteger text then .integer
  else if text = "<<" then .merge
  else if isTimestamp text then .timestamp
  else if text = "=" then .default
  else .text

/-- The tags by the names that a text may give them. -/
def namedTags : List (String × Tag) :=
  [("null", .null), ("bool", .truth), ("int", .integer), ("float", .float),
    ("timestamp", .timestamp), ("str", .text), ("merge", .merge), ("value", .default),
    ("seq", .list), ("map", .map)]

/-- What the names of the tags begin with. -/
def tagNamespace : String := "tag:yaml.org,2002:"

/-- The tag of a full name. -/
def Tag.ofName (name : String) : Tag :=
  match namedTags.find? fun pair => tagNamespace ++ pair.1 == name with
  | some (_, tag) => tag
  | none => .unknown

/-- The value of a scalar under a tag. -/
def scalarValue (tag : Tag) (text : String) : Except Fault Datum :=
  match tag with
  | .null => .ok .null
  | .truth => ((readTruth text).map .bool).mapError .scalar
  | .integer => ((readInteger text).map .int).mapError .scalar
  | .float => ((readFloat text).map .float).mapError .scalar
  | .timestamp => (readTimestamp text).mapError .scalar
  | .text => .ok (.str text)
  | .merge | .default | .list | .map | .unknown => .error .malformed

end DesignTokens.Yaml
