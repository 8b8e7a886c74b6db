import DesignTokens.Token.Scalar
import DesignTokens.Token.TokenPath
/-!
# Token values

A token has a literal or refers to another token.  Only a text that is one reference expression as
a whole refers; a text that merely holds braces is a literal.
-/

set_option autoImplicit false

namespace DesignTokens

/-- What a token is set to. -/
inductive TokenValue where
  | literal (value : Scalar)
  | reference (target : TokenPath)
  deriving DecidableEq, Repr, Inhabited

namespace TokenValue

/-- The text between the braces, if a text is one pair of braces around something without any. -/
def inner? (cs : List Char) : Option (List Char) :=
  match cs with
  | '{' :: rest =>
    match rest.getLast? with
    | some '}' =>
      let inside := rest.dropLast
      if inside.isEmpty || inside.any (fun c => c == '{' || c == '}') then none else some inside
    | _ => none
  | _ => none

/-- The path that a text refers to, if it is a reference expression. -/
def referenceTarget? (s : String) : Option TokenPath :=
  match inner? (Text.trim s).toList with
  | none => none
  | some inside =>
    let target := TokenPath.ofDotted (String.ofList inside)
    if target.any (· == "") then none else some target

/-- The value that a scalar of a document stands for. -/
def ofScalar : Scalar → TokenValue
  | .str s =>
    match referenceTarget? s with
    | some target => .reference target
    | none => .literal (.str s)
  | other => .literal other

/-- The expression that refers to a path. -/
def expression (target : TokenPath) : String :=
  "\x7b" ++ target.dotted ++ "\x7d"

/-- Whether a value refers to another token. -/
def isReference : TokenValue → Bool
  | .reference _ => true
  | .literal _ => false

end TokenValue

end DesignTokens
