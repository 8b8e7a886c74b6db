import DesignTokens.Config.Problem
import DesignTokens.Datum
import DesignTokens.FileTree.Path
import DesignTokens.Identifier
/-!
# Fields of given settings

Readers for the fields of settings given as data.  Texts are never made from numbers; a truth value
may also be given as zero, one, or one of a few words.
-/

set_option autoImplicit false

namespace DesignTokens.Field

/-- A text. -/
def text : Datum → Checked String
  | .str s => .ok s
  | _ => Checked.problem .notText

/-- A text that is not empty. -/
def nonEmptyText (given : Datum) : Checked String :=
  match text given with
  | .ok s => if s = "" then Checked.problem .textTooShort else .ok s
  | .error ps => .error ps

/-- Whether a text can be a file name's stem: letters, digits, underscores and hyphens. -/
def isFileSafe (s : String) : Bool :=
  s ≠ "" && s.toList.all isIdentifierChar

/-- A text that can be a file name's stem. -/
def fileSafeText (given : Datum) : Checked String :=
  match text given with
  | .ok s => if isFileSafe s then .ok s else Checked.problem .patternMismatch
  | .error ps => .error ps

/-- A path given as text. -/
def path : Datum → Checked Path
  | .str s => .ok (Path.ofString s)
  | _ => Checked.problem .notPath

/-- Numbers from here on are too long to be looked at as numbers. -/
def shortBound : Int := 9223372036854775808

/-- Whether a number is short: sixty-four bits with a sign hold it. -/
def isShort (n : Int) : Bool :=
  -shortBound ≤ n && n < shortBound

/-- A number that is not short, as a step shows it. -/
def longStep (n : Int) : FieldStep :=
  .field (if Json.withinDigits n then toString n else "<unprintable int object>")

/-- The step to the value under a key. -/
def stepTo : Datum → FieldStep
  | .str s => .field s
  | .bool b => .index (if b then 1 else 0)
  | .int n => if isShort n then .index n else longStep n
  | key => .field key.shown

/-- The problem of a key that is no text. -/
def keyProblem? : Datum → Option Problem
  | .str _ => none
  | key => some ⟨[stepTo key, .key], .notText⟩

/-- A mapping whose keys are texts. -/
def textMap : Datum → Checked Datum.Pairs
  | .map pairs =>
    match pairs.filterMap fun pair => keyProblem? pair.1 with
    | [] => .ok pairs
    | problems => .error problems
  | _ => Checked.problem .notObject

/-- A list of texts. -/
def texts : Datum → Checked (List String)
  | .list items => Checked.each text 0 items
  | _ => Checked.problem .notList

/-- A list with at least one text. -/
def nonEmptyTexts : Datum → Checked (List String)
  | .list [] => Checked.problem .listTooShort
  | given => texts given

/-- What may also be null. -/
def orNull {α : Type} (read : Datum → Checked α) : Datum → Checked (Option α)
  | .null => .ok none
  | given => (read given).map some

/-- The words for the truth values, in lower case. -/
def truthWords : List (String × Bool) :=
  [("0", false), ("off", false), ("f", false), ("false", false), ("n", false), ("no", false),
    ("1", true), ("on", true), ("t", true), ("true", true), ("y", true), ("yes", true)]

/-- A truth value given as a number: zero or one.  Whether other numbers are considered depends on
their size. -/
def truthOfInt (considered : Bool) (n : Int) : Checked Bool :=
  if n = 0 then .ok false
  else if n = 1 then .ok true
  else Checked.problem (if considered then .truthValueUnreadable else .notTruthValue)

/-- A truth value. -/
def truth : Datum → Checked Bool
  | .bool b => .ok b
  | .int n => truthOfInt (isShort n) n
  | .float x =>
    match x.toInt? with
    | some n => truthOfInt (-shortBound < n && n < shortBound) n
    | none => Checked.problem .notTruthValue
  | .str s =>
    match truthWords.find? fun pair => pair.1 == String.ofList (s.toList.map Char.toLower) with
    | some (_, b) => .ok b
    | none => Checked.problem .truthValueUnreadable
  | .null | .day _ | .moment _ | .list _ | .map _ => Checked.problem .notTruthValue

/-- A field that must be given. -/
def required {α : Type} (fields : Datum.Pairs) (name : String) (read : Datum → Checked α) :
    Checked α :=
  Checked.within (.field name) <|
    match fields.get? name with
    | some given => read given
    | none => Checked.problem .missing

/-- A field with a default. -/
def optional {α : Type} (fields : Datum.Pairs) (name : String) (default : α)
    (read : Datum → Checked α) : Checked α :=
  Checked.within (.field name) <|
    match fields.get? name with
    | some given => read given
    | none => .ok default

end DesignTokens.Field
