import DesignTokens.Text.Blank
/-!
# Paths

Paths as a caller writes them: an anchor and the names after it.  Empty names and `.` are dropped
on reading, `..` is kept, since what it means depends on the tree.
-/

set_option autoImplicit false

namespace DesignTokens

/-- Where a path starts: at the working directory or at the root, which two slashes alone write in
a way of their own. -/
inductive Anchor where
  | here
  | root
  | doubleRoot
  deriving DecidableEq, Repr, Inhabited

/-- The text of an anchor. -/
def Anchor.text : Anchor → String
  | .here => ""
  | .root => "/"
  | .doubleRoot => "//"

/-- A path. -/
structure Path where
  anchor : Anchor
  names : List String
  deriving DecidableEq, Repr, Inhabited

namespace Path

/-- The working directory. -/
def here : Path := ⟨.here, []⟩

/-- The anchor that a text begins with: exactly two slashes are kept as two. -/
def anchorOf : List Char → Anchor
  | '/' :: '/' :: '/' :: _ => .root
  | '/' :: '/' :: _ => .doubleRoot
  | '/' :: _ => .root
  | _ => .here

/-- Reads a path. -/
def ofString (s : String) : Path :=
  let cs := s.toList
  let pieces := (Text.splitAtChar '/' cs).map String.ofList
  ⟨anchorOf cs, pieces.filter fun name => name ≠ "" ∧ name ≠ "."⟩

/-- The text of a path; the working directory is `.`. -/
def toString (p : Path) : String :=
  if p.anchor = .here ∧ p.names = [] then "."
  else p.anchor.text ++ "/".intercalate p.names

instance : ToString Path := ⟨Path.toString⟩

/-- Whether a path starts at the root. -/
def isAbsolute (p : Path) : Bool :=
  p.anchor ≠ .here

/-- A path seen from another one: an absolute path stays as it is. -/
def join (p q : Path) : Path :=
  if q.isAbsolute then q else ⟨p.anchor, p.names ++ q.names⟩

/-- A path without its last name. -/
def parent (p : Path) : Path :=
  ⟨p.anchor, p.names.dropLast⟩

/-- The last name, empty if there is none. -/
def name (p : Path) : String :=
  p.names.getLastD ""

/-- Whether a path holds the character NUL, which no file name has. -/
def hasNul (p : Path) : Bool :=
  p.names.any fun name => name.toList.contains '\x00'

/-- The pieces that paths are ordered by: the anchor, if there is one, and the names. -/
def sortKey (p : Path) : List String :=
  if p.isAbsolute then p.anchor.text :: p.names else p.names

/-- Order by pieces, each by code points, and a path before its extensions. -/
def lessEq (p q : Path) : Bool :=
  !decide (q.sortKey < p.sortKey)

/-- Paths in order. -/
def sort (paths : List Path) : List Path :=
  paths.mergeSort lessEq

end Path

end DesignTokens
