import DesignTokens.Config.Problem
import DesignTokens.Token.Basic
/-!
# Tokens given by their parts

A token that is not read from a document is checked part by part: its path has at least one name and
no empty one, and its type, if it has one, is one of the types.
-/

set_option autoImplicit false

namespace DesignTokens.Token

/-- Whether a path can be a token's. -/
def isPath (path : TokenPath) : Bool :=
  !path.isEmpty && path.all (· ≠ "")

/-- The path of a token. -/
def checkedPath (path : TokenPath) : Checked TokenPath :=
  Checked.within (.field "path") <|
    (Checked.require (.tokenPathInvalid path) (isPath path)).map fun _ => path

/-- The type of a token, given by its name. -/
def checkedType (name : Option String) : Checked (Option TokenType) :=
  Checked.within (.field "type") <|
    match name with
    | none => .ok none
    | some text =>
      match TokenType.ofName? text with
      | some type => .ok (some type)
      | none => Checked.problem .notMember

/-- The token of the given parts. -/
def ofParts (path : TokenPath) (typeName : Option String) (value : TokenValue) (layer : String)
    (description : Option String) : Checked Token :=
  Checked.and
    (Checked.and (.ok fun path type => ⟨path, type, value, layer, description⟩) (checkedPath path))
    (checkedType typeName)

end DesignTokens.Token
