import DesignTokens.Text.Quoted
/-!
# Problems of given settings

What can be wrong with settings that a caller gives, each with the place it concerns, and checks
that gather the problems of all parts instead of stopping at the first.
-/

set_option autoImplicit false

namespace DesignTokens

/-- A rule of the settings that goes beyond the kind of a single field. -/
inductive Rule where
  | layerNeedsOrigin (layer : String)
  | modeNameEmpty
  | modeNamesRepeated (modes : List String)
  | defaultModeUnknown (mode : String) (modes : List String)
  | layerNamesRepeated (names : List String)
  | layerModeUnknown (layer mode : String)
  | indexGroupReserved
  | tokenPathInvalid (path : List String)
  deriving DecidableEq, Repr, Inhabited

/-- What a broken rule says. -/
def Rule.message : Rule → String
  | .layerNeedsOrigin layer => s!"Layer '{layer}' needs either 'source' or 'data'"
  | .modeNameEmpty => "Mode names must be non-empty"
  | .modeNamesRepeated modes => s!"Duplicate mode names: {Text.quotedList modes}"
  | .defaultModeUnknown mode modes =>
    s!"default_mode '{mode}' is not one of {Text.quotedList modes}"
  | .layerNamesRepeated names => s!"Duplicate layer names: {Text.quotedList names}"
  | .layerModeUnknown layer mode => s!"Layer '{layer}' is tagged with unknown mode '{mode}'"
  | .indexGroupReserved => "Group name 'index' is reserved for the index file"
  | .tokenPathInvalid path => s!"Invalid token path: {Text.quotedTuple path}"

/-- What is wrong with a field. -/
inductive ProblemKind where
  | missing
  | notText
  | textTooShort
  | patternMismatch
  | notInteger
  | notNumber
  | notList
  | listTooShort
  | notObject
  | notPath
  | notModel
  | truthValueUnreadable
  | notTruthValue
  | notMember
  | rule (broken : Rule)
  deriving DecidableEq, Repr, Inhabited

/-- A step on the way to a field. -/
inductive FieldStep where
  | field (name : String)
  | index (position : Int)
  /-- A key itself, and not the value under it. -/
  | key
  deriving DecidableEq, Repr, Inhabited

/-- A problem and the field it concerns. -/
structure Problem where
  place : List FieldStep
  kind : ProblemKind
  deriving DecidableEq, Repr, Inhabited

/-- A checked part of the settings: its value, or everything that is wrong with it. -/
abbrev Checked (α : Type) := Except (List Problem) α

namespace Checked

variable {α β : Type}

/-- A problem of the part as a whole. -/
def problem (kind : ProblemKind) : Checked α :=
  .error [⟨[], kind⟩]

/-- A part seen from the settings that contain it. -/
def within (step : FieldStep) (part : Checked α) : Checked α :=
  part.mapError fun problems => problems.map fun p => { p with place := step :: p.place }

/-- Two parts together; the problems of the first come first. -/
def and (first : Checked (α → β)) (second : Checked α) : Checked β :=
  match first, second with
  | .ok f, .ok x => .ok (f x)
  | .error ps, .ok _ => .error ps
  | .ok _, .error qs => .error qs
  | .error ps, .error qs => .error (ps ++ qs)

/-- All members of a list, from the given position on. -/
def each (check : β → Checked α) : Nat → List β → Checked (List α)
  | _, [] => .ok []
  | position, x :: xs =>
    Checked.and (Checked.and (.ok List.cons) (Checked.within (.index position) (check x)))
      (each check (position + 1) xs)

/-- A rule that a valid part must keep as well. -/
def require (rule : Rule) (holds : Bool) : Checked Unit :=
  if holds then .ok () else problem (.rule rule)

end Checked

end DesignTokens
