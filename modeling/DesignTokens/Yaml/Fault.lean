/-!
# Faults of YAML texts

Why a text is not read: it is no YAML, or it is YAML with a scalar that has no value.
-/

set_option autoImplicit false

namespace DesignTokens.Yaml

/-- Why a scalar has no value. -/
inductive ScalarFault where
  /-- An escape names a number past the last character. -/
  | noSuchCharacter
  /-- An escape names a number that does not even fit into 31 bits. -/
  | characterOutOfRange
  /-- An integer or floating point number is not written as one, or it has no digits. -/
  | noNumber
  /-- A number has neither sign nor digits. -/
  | emptyNumber
  /-- An integer has more decimal digits than are read. -/
  | integerTooLong
  /-- A number in base sixty has more places than a floating point number can count. -/
  | tooManyPlaces
  /-- A word is no truth value. -/
  | noTruthValue
  /-- A text is not written as a day or a moment. -/
  | noTimestamp
  /-- A day or a time of day is not in the calendar. -/
  | notInCalendar
  deriving DecidableEq, Repr, Inhabited

/-- Why a text is not read. -/
inductive Fault where
  | malformed
  | scalar (fault : ScalarFault)
  deriving DecidableEq, Repr, Inhabited

end DesignTokens.Yaml
