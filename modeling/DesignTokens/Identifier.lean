import DesignTokens.OrderedMap
import DesignTokens.Text.Blank
import DesignTokens.Token.TokenPath
/-!
# Identifiers

The names of custom properties.  A path becomes `--` and its segments joined by hyphens, each
reduced to letters, digits, underscores and hyphens; different paths may thus claim one name.
-/

set_option autoImplicit false

namespace DesignTokens

/-- The characters that a segment keeps: ASCII letters and digits, underscore and hyphen. -/
def isIdentifierChar (c : Char) : Bool :=
  c.isAlphanum || c == '_' || c == '-'

namespace Identifier

/-- Runs of hyphens become one hyphen. -/
def collapseHyphens : List Char → List Char
  | '-' :: '-' :: rest => collapseHyphens ('-' :: rest)
  | c :: rest => c :: collapseHyphens rest
  | [] => []

/-- Drops the hyphens around a text. -/
def stripHyphens (cs : List Char) : List Char :=
  ((cs.dropWhile (· == '-')).reverse.dropWhile (· == '-')).reverse

/-- A segment with hyphens for what an identifier cannot hold; it may come out empty. -/
def sanitizeSegment (segment : String) : String :=
  let replaced := segment.toList.map fun c => if isIdentifierChar c then c else '-'
  String.ofList (stripHyphens (collapseHyphens replaced))

/-- The body of the identifier of a path without any usable segment. -/
def placeholder : String := "_"

/-- The identifier of a path. -/
def ofPath (path : TokenPath) : String :=
  let parts := (path.map sanitizeSegment).filter (· ≠ "")
  let body := "-".intercalate parts
  "--" ++ if body = "" then placeholder else body

end Identifier

/-- Two paths that claim one identifier. -/
structure Collision where
  identifier : String
  first : TokenPath
  second : TokenPath
  deriving DecidableEq, Repr, Inhabited

/-- The first claimant of every identifier, and the collisions with it, in order. -/
structure Claims where
  owners : OrderedMap String TokenPath
  collisions : List Collision
  deriving DecidableEq, Repr, Inhabited

namespace Claims

/-- Adds the claim of one more path. -/
def add (claims : Claims) (path : TokenPath) : Claims :=
  let identifier := Identifier.ofPath path
  match OrderedMap.get? claims.owners identifier with
  | none => { claims with owners := claims.owners ++ [(identifier, path)] }
  | some owner =>
    if owner = path then claims
    else { claims with collisions := claims.collisions ++ [⟨identifier, owner, path⟩] }

/-- The claims of a sequence of paths. -/
def ofPaths (paths : List TokenPath) : Claims :=
  paths.foldl add ⟨[], []⟩

/-- The identifier of every first claimant. -/
def identifiers (claims : Claims) : OrderedMap TokenPath String :=
  OrderedMap.ofPairs (claims.owners.map fun (identifier, path) => (path, identifier))

/-- The identifiers of a sequence of paths, unless two of them collide. -/
def check (paths : List TokenPath) : Except Collision (OrderedMap TokenPath String) :=
  let claims := ofPaths paths
  match claims.collisions with
  | collision :: _ => .error collision
  | [] => .ok claims.identifiers

end Claims

end DesignTokens
