import DesignTokens.BuildError
/-!
# Token documents

A token document is a nested mapping.  A node is a token if it has a `$value`, or a `value` that is
no mapping; any other mapping is a group, whose `$type` its descendants inherit.  Keys that begin
with `$` describe the node they stand in.  Flattening a document lists its tokens in document order
or reports the first offence it meets.
-/

set_option autoImplicit false

namespace DesignTokens

/-- What a document is called: its layer, and the name that messages use. -/
structure DocumentName where
  layer : String
  identifier : String
  deriving DecidableEq, Repr, Inhabited

namespace Document

open Datum (Pairs)

/-- The failure for a fault of a document at a path; one that cannot be worded is not reported. -/
def faultAt (name : DocumentName) (fault : DocumentFault) (path : TokenPath) : Failure :=
  if fault.isShowable then .error (.document name.identifier fault (.atPath path))
  else .breakdown .integerTooLong

/-- Whether a node is a token. -/
def isTokenNode : Datum → Bool
  | .map fields =>
    Pairs.has fields "$value" ||
      match Pairs.get? fields "value" with
      | some value => !value.isMap
      | none => false
  | _ => false

/-- Whether a key describes the node it stands in. -/
def isMetaKey (key : String) : Bool :=
  match key.toList with
  | '$' :: _ => true
  | _ => false

/-- Whether a character would end a declaration or a rule. -/
def isDelimiter (c : Char) : Bool :=
  c == ';' || c == '{' || c == '}'

/-- The value under the first key of a list that a node has. -/
def firstOf (fields : Pairs) (keys : List String) : Option Datum :=
  keys.findSome? fun key => fields.get? key

/-- The type that a node declares. -/
def declaredType (name : DocumentName) (path : TokenPath) (given : Datum) :
    Except Failure TokenType :=
  match given with
  | .str s =>
    match TokenType.ofDeclared? s with
    | some t => .ok t
    | none => .error (faultAt name (.unknownType given) path)
  | _ => .error (faultAt name (.unknownType given) path)

/-- The problems of a value that is of no kind that tokens have: each kind refuses it. -/
def kindProblems : List Problem :=
  [("bool", .notTruthValue), ("int", .notInteger), ("float", .notNumber), ("str", .notText)].map
    fun kind => ⟨[.field "value", .field kind.1], kind.2⟩

/-- The failure of a value that is no scalar. -/
def notScalar (name : DocumentName) (path : TokenPath) : Datum → Failure
  | .day _ | .moment _ => .breakdown (.invalidToken kindProblems)
  | raw => faultAt name (.valueKind raw.kindName) path

/-- The value of a token node: a finite scalar that a style sheet can carry. -/
def tokenValue (name : DocumentName) (path : TokenPath) (raw : Datum) :
    Except Failure TokenValue :=
  match Scalar.ofDatum? raw with
  | none => .error (notScalar name path raw)
  | some (.float x) =>
    if x.isFinite then .ok (.literal (.float x))
    else .error (faultAt name (.valueNotFinite x) path)
  | some scalar =>
    match TokenValue.ofScalar scalar with
    | .literal (.str s) =>
      if s.toList.any isDelimiter then .error (faultAt name (.delimiterInValue s) path)
      else .ok (.literal (.str s))
    | value => .ok value

/-- The type of a token that declares none, itself or through a group. -/
def inferredType : TokenValue → Option TokenType
  | .reference _ => none
  | .literal (.bool _) => some .boolean
  | .literal (.int _) => some .number
  | .literal (.float _) => some .number
  | .literal (.str _) => some .string

/-- The type of a token: its own, else the inherited one, else the one of its literal. -/
def tokenType (name : DocumentName) (path : TokenPath) (inherited : Option TokenType)
    (fields : Pairs) (value : TokenValue) : Except Failure (Option TokenType) :=
  match firstOf fields ["$type", "type"] with
  | some given => (declaredType name path given).map some
  | none => .ok (inherited.orElse fun _ => inferredType value)

/-- The description of a token, if it is a text. -/
def description (fields : Pairs) : Option String :=
  match firstOf fields ["$description", "description"] with
  | some (.str s) => some s
  | _ => none

/-- The token of a token node. -/
def token (name : DocumentName) (path : TokenPath) (inherited : Option TokenType)
    (fields : Pairs) : Except Failure Token := do
  let value ← tokenValue name path ((firstOf fields ["$value", "value"]).getD .null)
  let type ← tokenType name path inherited fields value
  return ⟨path, type, value, name.layer, description fields⟩

/-- The type that the members of a group inherit. -/
def groupType (name : DocumentName) (path : TokenPath) (inherited : Option TokenType)
    (fields : Pairs) : Except Failure (Option TokenType) :=
  match fields.get? "$type" with
  | some given => (declaredType name path given).map some
  | none => .ok inherited

mutual

/-- The tokens of one member of a group. -/
def flattenMember (name : DocumentName) (inherited : Option TokenType) (path : TokenPath) :
    Datum → Except Failure (List Token)
  | .map fields =>
    if isTokenNode (.map fields) then
      (token name path inherited fields).map ([·])
    else
      match groupType name path inherited fields with
      | .error e => .error e
      | .ok type => flattenMembers name type path fields
  | node => .error (faultAt name (.notTokenOrGroup node.kindName) path)

/-- The tokens of the members of a group, in document order. -/
def flattenMembers (name : DocumentName) (inherited : Option TokenType) (path : TokenPath) :
    Pairs → Except Failure (List Token)
  | [] => .ok []
  | (.str key, node) :: rest =>
    if isMetaKey key then
      flattenMembers name inherited path rest
    else if Text.allBlank key then
      .error (faultAt name .emptyKey (path ++ [key]))
    else
      match flattenMember name inherited (path ++ [key]) node with
      | .error e => .error e
      | .ok first =>
        match flattenMembers name inherited path rest with
        | .error e => .error e
        | .ok others => .ok (first ++ others)
  | _ :: _ => .error (.breakdown .keyNotText)

end

/-- The tokens of a document. -/
def flatten (name : DocumentName) (document : Datum) : Except Failure (List Token) :=
  match document with
  | .map fields =>
    match groupType name [] none fields with
    | .error e => .error e
    | .ok type => flattenMembers name type [] fields
  | _ => .error (.error (.document name.identifier .rootNotObject .unknown))

end Document

end DesignTokens
