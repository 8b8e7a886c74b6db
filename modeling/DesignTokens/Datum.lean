import DesignTokens.Calendar
import DesignTokens.Json.Printer
/-!
# Data

What settings and token documents are read into.  Data have all values of JSON, and those that
only other formats can write: days, moments, and mappings whose keys are no texts.

Keys that are equal as values are one key of a mapping: a number is one key however it is written,
and a truth value is the same key as zero or one.
-/

set_option autoImplicit false

namespace DesignTokens

/-- A value of settings or of a document.  A mapping keeps its pairs in order. -/
inductive Datum where
  | null
  | bool (value : Bool)
  | int (value : Int)
  | float (value : Binary64)
  | str (value : String)
  | day (value : Day)
  | moment (value : Moment)
  | list (items : List Datum)
  | map (pairs : List (Datum × Datum))
  deriving Repr, Inhabited, BEq

namespace Datum

/-- The pairs of a mapping, in order. -/
abbrev Pairs := List (Datum × Datum)

/-! ## Keys -/

/-- What makes a key: equal keys have equal forms. -/
inductive KeyForm where
  | null
  | whole (value : Int)
  | fraction (value : Binary64)
  | text (value : String)
  | day (value : Day)
  | localMoment (value : Moment)
  | universalMoment (microseconds : Int)
  deriving DecidableEq, Repr, Inhabited

/-- The form of a floating point number as a key. -/
def floatKey (x : Binary64) : KeyForm :=
  match x.toInt? with
  | some n => .whole n
  | none => .fraction x

/-- The form of a moment as a key. -/
def momentKey (m : Moment) : KeyForm :=
  match m.universal? with
  | some microseconds => .universalMoment microseconds
  | none => .localMoment m

/-- The form of a value as a key; lists and mappings are no keys. -/
def keyForm? : Datum → Option KeyForm
  | .null => some .null
  | .bool b => some (.whole (if b then 1 else 0))
  | .int n => some (.whole n)
  | .float x => some (floatKey x)
  | .str s => some (.text s)
  | .day d => some (.day d)
  | .moment m => some (momentKey m)
  | .list _ | .map _ => none

/-- Whether two values are one key.  What is not a number is equal to no key. -/
def isSameKey (a b : Datum) : Bool :=
  match a.keyForm?, b.keyForm? with
  | some (.fraction x), some (.fraction y) => x == y && !x.isNaN
  | some f, some g => f == g
  | _, _ => false

namespace Pairs

/-- Sets the value under a key.  An old key keeps its place and the way it was first written. -/
def set (pairs : Pairs) (key value : Datum) : Pairs :=
  match pairs with
  | [] => [(key, value)]
  | (k, old) :: rest =>
    if k.isSameKey key then (k, value) :: rest else (k, old) :: set rest key value

/-- Sets pair after pair, so that the last value of a key counts, at the place of the first. -/
def ofList (pairs : List (Datum × Datum)) : Pairs :=
  pairs.foldl (fun all pair => set all pair.1 pair.2) []

/-- The value under a text. -/
def get? (pairs : Pairs) (name : String) : Option Datum :=
  match pairs with
  | [] => none
  | (.str s, value) :: rest => if s = name then some value else get? rest name
  | _ :: rest => get? rest name

/-- Whether a text is a key. -/
def has (pairs : Pairs) (name : String) : Bool :=
  (get? pairs name).isSome

/-- Pairs whose keys are texts. -/
def ofFields (fields : List (String × Datum)) : Pairs :=
  fields.map fun field => (.str field.1, field.2)

end Pairs

/-! ## Values -/

/-- Whether a value is a mapping. -/
def isMap : Datum → Bool
  | .map _ => true
  | _ => false

/-- The name of a value's kind, as messages write it. -/
def kindName : Datum → String
  | .null => "NoneType"
  | .bool _ => "bool"
  | .int _ => "int"
  | .float _ => "float"
  | .str _ => "str"
  | .day _ => "date"
  | .moment _ => "datetime"
  | .list _ => "list"
  | .map _ => "dict"

mutual

/-- The value that a JSON value is. -/
def ofJson : Json → Datum
  | .null => .null
  | .bool b => .bool b
  | .int n => .int n
  | .float x => .float x
  | .str s => .str s
  | .arr items => .list (ofJsonItems items)
  | .obj fields => .map (ofJsonFields fields)

/-- The values of the items of an array. -/
def ofJsonItems : List Json → List Datum
  | [] => []
  | item :: items => ofJson item :: ofJsonItems items

/-- The pairs of the fields of an object. -/
def ofJsonFields : Json.Fields → Pairs
  | [] => []
  | (key, value) :: fields => (.str key, ofJson value) :: ofJsonFields fields

end

mutual

/-- A value as a message shows it. -/
def shown : Datum → String
  | .null => "None"
  | .bool b => if b then "True" else "False"
  | .int n => toString n
  | .float x => Json.shownFloatLayout.render x
  | .str s => Text.quoted s
  | .day d => d.shown
  | .moment m => m.shown
  | .list items => "[" ++ ", ".intercalate (shownItems items) ++ "]"
  | .map pairs => "\x7b" ++ ", ".intercalate (shownPairs pairs) ++ "\x7d"

/-- The shown forms of the items of a list. -/
def shownItems : List Datum → List String
  | [] => []
  | item :: items => shown item :: shownItems items

/-- The shown forms of the pairs of a mapping. -/
def shownPairs : Pairs → List String
  | [] => []
  | (key, value) :: pairs => (shown key ++ ": " ++ shown value) :: shownPairs pairs

end

mutual

/-- Whether a message can show a value: an integer with too many digits is not shown. -/
def isShowable : Datum → Bool
  | .int n => Json.withinDigits n
  | .list items => areShowable items
  | .map pairs => haveShowable pairs
  | .null | .bool _ | .float _ | .str _ | .day _ | .moment _ => true

/-- Whether a message can show all items of a list. -/
def areShowable : List Datum → Bool
  | [] => true
  | item :: items => isShowable item && areShowable items

/-- Whether a message can show all keys and values of a mapping. -/
def haveShowable : Pairs → Bool
  | [] => true
  | (key, value) :: pairs => isShowable key && isShowable value && haveShowable pairs

end

end Datum

/-- A JSON value as a message shows it. -/
def Json.shown (value : Json) : String :=
  (Datum.ofJson value).shown

end DesignTokens
