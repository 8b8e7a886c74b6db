import DesignTokens.FileTree.Basic
/-!
# Path patterns

Patterns of paths below a directory, at any depth.  In a name `*` stands for any characters, `?` for
one, `[…]` for one of a set and `[!…]` for one outside a set.  A part `**` stands for any number of
directories, and a slash at the end asks for a directory.
-/

set_option autoImplicit false

namespace DesignTokens.Glob

/-- Whether a character is in a set, written as characters and ranges. -/
def inSet (c : Char) : List Char → Bool
  | low :: '-' :: high :: rest => (low ≤ c && c ≤ high) || inSet c rest
  | d :: rest => c == d || inSet c rest
  | [] => false

/-- A set from its first range that does not run backwards; a range that does holds nothing. -/
def dropBackward : List Char → List Char
  | low :: '-' :: high :: rest =>
    if high < low then dropBackward rest else low :: '-' :: high :: rest
  | cs => cs

/-- Whether a character is in the set that a text between brackets stands for. -/
def inBrackets (c : Char) (text : List Char) : Bool :=
  match text with
  | '!' :: members => !inSet c members
  | _ =>
    match dropBackward text with
    | '!' :: members => !inSet c members
    | members => inSet c members

/-- The text of a set and what follows it, if the set is closed; a bracket that comes first
is a member. -/
def splitSet? (cs : List Char) : Option (List Char × List Char) :=
  let (first, rest) := match cs with
    | '!' :: ']' :: more => (['!', ']'], more)
    | '!' :: more => (['!'], more)
    | ']' :: more => ([']'], more)
    | _ => ([], cs)
  match rest.dropWhile (· != ']') with
  | _ :: left => some (first ++ rest.takeWhile (· != ']'), left)
  | [] => none

/-- Whether a name matches a pattern.  Every call drops a character of the pattern or of the name,
so their lengths together bound the recursion. -/
def matchesChars : Nat → List Char → List Char → Bool
  | 0, _, _ => false
  | _ + 1, [], name => name.isEmpty
  | fuel + 1, '*' :: pattern, name =>
    matchesChars fuel pattern name ||
      match name with
      | [] => false
      | _ :: rest => matchesChars fuel ('*' :: pattern) rest
  | fuel + 1, '?' :: pattern, name =>
    match name with
    | [] => false
    | _ :: rest => matchesChars fuel pattern rest
  | fuel + 1, '[' :: pattern, name =>
    match splitSet? pattern, name with
    | some (set, left), c :: rest => inBrackets c set && matchesChars fuel left rest
    | some _, [] => false
    | none, '[' :: rest => matchesChars fuel pattern rest
    | none, _ => false
  | fuel + 1, p :: pattern, name =>
    match name with
    | c :: rest => c == p && matchesChars fuel pattern rest
    | [] => false

/-- Whether a name matches a pattern. -/
def matchesName (pattern name : String) : Bool :=
  matchesChars (pattern.length + name.length + 1) pattern.toList name.toList

/-! ## Patterns of several parts -/

/-- A part of a pattern. -/
inductive Part where
  /-- Any number of directories. -/
  | anywhere
  /-- One name among those that are there. -/
  | wildcard (pattern : String)
  /-- One name, or the step to the directory above. -/
  | name (text : String)
  /-- What the parts before lead to, which must be a directory. -/
  | directory
  deriving DecidableEq, Repr, Inhabited

/-- Why a text is no pattern. -/
inductive Fault where
  | absolute
  | brokenPart
  deriving DecidableEq, Repr, Inhabited

/-- Whether a text has two stars in a row. -/
def hasDoubleStar : List Char → Bool
  | '*' :: '*' :: _ => true
  | _ :: rest => hasDoubleStar rest
  | [] => false

/-- The part that a name of a pattern is; two stars in a row are a part alone. -/
def Part.ofName (name : String) : Except Fault Part :=
  if name = "**" then .ok .anywhere
  else if hasDoubleStar name.toList then .error .brokenPart
  else if name.toList.any fun c => c == '*' || c == '?' || c == '[' then .ok (.wildcard name)
  else .ok (.name name)

/-- The parts of a pattern, which is looked for at any depth. -/
def parts (pattern : String) : Except Fault (List Part) :=
  let path := Path.ofString pattern
  if path.isAbsolute then .error .absolute
  else
    let closing : List Part := if pattern.toList.getLast? = some '/' then [.directory] else []
    (path.names.mapM Part.ofName).map fun named => .anywhere :: named ++ closing

end DesignTokens.Glob

namespace DesignTokens.FileTree

/-- A directory and the directories below it. -/
def directoriesFrom (tree : FileTree) (directory : Path) : List Path :=
  match tree.locate directory with
  | .error _ => []
  | .ok location =>
    directory :: (tree.below location).filterMap fun (names, entry) =>
      if entry.isDirectory then some { directory with names := directory.names ++ names } else none

/-- The names in a directory. -/
def namesIn (tree : FileTree) (directory : Path) : List String :=
  match tree.locate directory with
  | .error _ => []
  | .ok location =>
    (tree.below location).filterMap fun (names, _) =>
      match names with
      | [name] => some name
      | _ => none

/-- The paths that the parts of a pattern lead to from a directory.  What further parts follow must be
a directory. -/
def select (tree : FileTree) (directory : Path) : List Glob.Part → List Path
  | [] | .directory :: _ => [directory]
  | .anywhere :: rest =>
    (tree.directoriesFrom directory).flatMap fun place => select tree place rest
  | .wildcard pattern :: rest =>
    let names := (tree.namesIn directory).filter (Glob.matchesName pattern)
    (names.filter (leadsOn rest)).flatMap fun name => select tree (step name) rest
  | .name name :: rest =>
    if leadsOn rest name then select tree (step name) rest else []
where
  /-- The path of a name in the directory. -/
  step (name : String) : Path := { directory with names := directory.names ++ [name] }
  /-- Whether a name is there, and a directory if it has to be. -/
  leadsOn (rest : List Glob.Part) (name : String) : Bool :=
    if rest.isEmpty then tree.hasEntry (step name) else tree.hasDirectory (step name)

/-- The paths below a directory that match a pattern, with their times. -/
def glob (tree : FileTree) (directory : Path) (pattern : String) :
    Except Glob.Fault (List (Path × Int)) :=
  (Glob.parts pattern).map fun parts =>
    (tree.select directory parts).filterMap fun path =>
      match tree.stat path with
      | .ok entry => some (path, entry.changed)
      | .error _ => none

end DesignTokens.FileTree
