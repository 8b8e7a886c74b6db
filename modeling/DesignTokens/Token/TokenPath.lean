import DesignTokens.Text.Blank
/-!
# Token paths

The place of a token among its groups.  In references and messages a path is written with dots.
-/

set_option autoImplicit false

namespace DesignTokens

/-- The names of the groups around a token, and its own. -/
abbrev TokenPath := List String

namespace TokenPath

/-- The dotted form of a path. -/
def dotted (path : TokenPath) : String :=
  ".".intercalate path

/-- The pieces of a dotted form, each without the blanks around it. -/
def ofDotted (s : String) : TokenPath :=
  (Text.splitAtChar '.' s.toList).map fun piece => Text.trim (String.ofList piece)

/-- The dotted forms of the paths along a chain. -/
def dottedChain (paths : List TokenPath) : String :=
  " -> ".intercalate (paths.map dotted)

end TokenPath

end DesignTokens
