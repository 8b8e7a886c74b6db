import DesignTokens.FileTree.Path
import DesignTokens.OrderedMap
/-!
# File trees

A tree of directories and files as a value, and the operations of a file system on it.  Every
operation either answers or refuses with the fault that a file system names; an operation that
changes the tree returns the changed one.  There are no links, so a path means one location at most.
-/

set_option autoImplicit false

namespace DesignTokens

/-- Why a file operation is refused. -/
inductive FileFault where
  | noEntry
  | notDirectory
  | isDirectory
  | alreadyExists
  | directoryNotEmpty
  | noSpace
  | notPermitted
  | busy
  | nameTooLong
  /-- The path holds a character that no file name has. -/
  | notAPath
  deriving DecidableEq, Repr, Inhabited

/-- The name of a fault. -/
def FileFault.name : FileFault → String
  | .noEntry => "ENOENT"
  | .notDirectory => "ENOTDIR"
  | .isDirectory => "EISDIR"
  | .alreadyExists => "EEXIST"
  | .directoryNotEmpty => "ENOTEMPTY"
  | .noSpace => "ENOSPC"
  | .notPermitted => "EACCES"
  | .busy => "EBUSY"
  | .nameTooLong => "ENAMETOOLONG"
  | .notAPath => "EINVAL"

/-- A place in the tree: the names on the way down from the root. -/
abbrev Location := List String

/-- What stands at a location, with the time of its last change. -/
inductive Entry where
  | file (bytes : ByteArray) (changed : Int)
  | directory (changed : Int)
  deriving Inhabited

/-- The time of an entry's last change. -/
def Entry.changed : Entry → Int
  | .file _ time => time
  | .directory time => time

/-- Whether an entry is a directory. -/
def Entry.isDirectory : Entry → Bool
  | .directory _ => true
  | .file _ _ => false

/-- A file tree, seen from a working directory.  The clock gives the time of the next change. -/
structure FileTree where
  entries : OrderedMap Location Entry
  workingDirectory : Location
  clock : Int
  deriving Inhabited

namespace FileTree

/-- The entry at a location; the root is always a directory. -/
def entry? (tree : FileTree) (location : Location) : Option Entry :=
  if location = [] then some (.directory 0) else OrderedMap.get? tree.entries location

/-- The bytes of the file at a location. -/
def fileAt? (tree : FileTree) (location : Location) : Option ByteArray :=
  match tree.entry? location with
  | some (.file bytes _) => some bytes
  | _ => none

/-- The most bytes of a name. -/
def maxNameSize : Nat := 255

/-- The most bytes of a path. -/
def maxPathSize : Nat := 4095

/-- The location that names lead to from a directory.  Every name but the last must lead to a
directory; the last one may be new. -/
def descend (tree : FileTree) : Location → List String → Except FileFault Location
  | location, [] => .ok location
  | location, name :: names =>
    match tree.entry? location with
    | none => .error .noEntry
    | some (.file _ _) => .error .notDirectory
    | some (.directory _) =>
      if maxNameSize < name.utf8ByteSize then .error .nameTooLong
      else descend tree (if name = ".." then location.dropLast else location ++ [name]) names

/-- The location of a path. -/
def locate (tree : FileTree) (path : Path) : Except FileFault Location :=
  if path.hasNul then .error .notAPath
  else if maxPathSize < path.toString.utf8ByteSize then .error .nameTooLong
  else descend tree (if path.isAbsolute then [] else tree.workingDirectory) path.names

/-- The entry of a path. -/
def stat (tree : FileTree) (path : Path) : Except FileFault Entry := do
  let location ← tree.locate path
  match tree.entry? location with
  | some entry => .ok entry
  | none => .error .noEntry

/-- Whether a path leads to an entry. -/
def hasEntry (tree : FileTree) (path : Path) : Bool :=
  (tree.stat path).isOk

/-- Whether a path leads to an entry; a name that is too long is refused. -/
def findEntry (tree : FileTree) (path : Path) : Except FileFault Bool :=
  match tree.stat path with
  | .ok _ => .ok true
  | .error .nameTooLong => .error .nameTooLong
  | .error _ => .ok false

/-- Whether a path leads to a directory. -/
def hasDirectory (tree : FileTree) (path : Path) : Bool :=
  match tree.stat path with
  | .ok entry => entry.isDirectory
  | .error _ => false

/-- Whether a path leads to a file. -/
def hasFile (tree : FileTree) (path : Path) : Bool :=
  match tree.stat path with
  | .ok entry => !entry.isDirectory
  | .error _ => false

/-- The working directory as an absolute path. -/
def workingPath (tree : FileTree) : Path :=
  ⟨.root, tree.workingDirectory⟩

/-- A path from the root with every `..` taken back, whether or not it exists. -/
def normalize (tree : FileTree) (path : Path) : Location :=
  path.names.foldl (fun location name => if name = ".." then location.dropLast else location ++ [name])
    (if path.isAbsolute then [] else tree.workingDirectory)

/-- The bytes of the file of a path. -/
def readBytes (tree : FileTree) (path : Path) : Except FileFault ByteArray := do
  match ← tree.stat path with
  | .file bytes _ => .ok bytes
  | .directory _ => .error .isDirectory

/-- Why a text cannot be read. -/
inductive TextFault where
  | file (fault : FileFault)
  | undecodable
  deriving DecidableEq, Repr, Inhabited

/-- The text of bytes in UTF-8, with universal newlines. -/
def decodeText (bytes : ByteArray) : Option String :=
  (String.fromUTF8? bytes).map fun s => String.ofList (Text.normalizeNewlines s.toList)

/-- The text of the file of a path. -/
def readText (tree : FileTree) (path : Path) : Except TextFault String :=
  match tree.readBytes path with
  | .error fault => .error (.file fault)
  | .ok bytes =>
    match decodeText bytes with
    | some text => .ok text
    | none => .error .undecodable

/-! ## Changes -/

/-- Puts an entry at a location, and passes the time. -/
def put (tree : FileTree) (location : Location) (entry : Entry) : FileTree :=
  { tree with entries := OrderedMap.set tree.entries location entry, clock := tree.clock + 1 }

/-- Removes the entry at a location, and passes the time. -/
def remove (tree : FileTree) (location : Location) : FileTree :=
  { tree with entries := OrderedMap.erase tree.entries location, clock := tree.clock + 1 }

/-- Marks the directory above a location as changed now. -/
def touchParent (tree : FileTree) (location : Location) : FileTree :=
  match OrderedMap.get? tree.entries location.dropLast with
  | some (.directory _) => tree.put location.dropLast (.directory tree.clock)
  | _ => tree

/-- Where a new entry of a path would stand: its directory must exist. -/
def newLocation (tree : FileTree) (path : Path) : Except FileFault Location := do
  let location ← tree.locate path
  match tree.entry? location.dropLast with
  | none => .error .noEntry
  | some (.file _ _) => .error .notDirectory
  | some (.directory _) => .ok location

/-- Writes a file, new or not; its directory must exist. -/
def writeBytes (tree : FileTree) (path : Path) (bytes : ByteArray) : Except FileFault FileTree := do
  let location ← tree.newLocation path
  match tree.entry? location with
  | some (.directory _) => .error .isDirectory
  | some (.file _ _) => .ok (tree.put location (.file bytes tree.clock))
  | none => .ok ((tree.put location (.file bytes tree.clock)).touchParent location)

/-- Sets the time of a file's last change. -/
def setChanged (tree : FileTree) (path : Path) (time : Int) : Except FileFault FileTree := do
  let location ← tree.locate path
  match tree.entry? location with
  | some (.file bytes _) => .ok (tree.put location (.file bytes time))
  | some (.directory _) => .ok (tree.put location (.directory time))
  | none => .error .noEntry

/-- Makes one directory; the one above it must exist. -/
def makeDirectory (tree : FileTree) (path : Path) : Except FileFault FileTree := do
  if path.names = [] then
    .error .alreadyExists
  else
    let location ← tree.newLocation path
    match tree.entry? location with
    | some _ => .error .alreadyExists
    | none => .ok ((tree.put location (.directory tree.clock)).touchParent location)

/-- Makes one directory unless it is there already. -/
def ensureDirectory (tree : FileTree) (path : Path) : Except FileFault FileTree :=
  match tree.makeDirectory path with
  | .ok made => .ok made
  | .error fault => if tree.hasDirectory path then .ok tree else .error fault

/-- Makes a directory with all directories above it.  Those made before a refusal stay. -/
def makeDirectories (tree : FileTree) (path : Path) : FileTree × Option FileFault :=
  match tree.makeDirectory path with
  | .ok made => (made, none)
  | .error .noEntry =>
    if path.names = [] then (tree, some .noEntry)
    else
      match makeDirectories tree path.parent with
      | (above, some fault) => (above, some fault)
      | (above, none) =>
        match above.ensureDirectory path with
        | .ok made => (made, none)
        | .error fault => (above, some fault)
  | .error fault => if tree.hasDirectory path then (tree, none) else (tree, some fault)
termination_by path.names.length
decreasing_by
  rename_i hnames
  have := List.length_pos_iff.mpr hnames
  simp [Path.parent]
  omega

/-- Removes a file. -/
def removeFile (tree : FileTree) (path : Path) : Except FileFault FileTree := do
  let location ← tree.locate path
  match tree.entry? location with
  | none => .error .noEntry
  | some (.directory _) => .error .isDirectory
  | some (.file _ _) => .ok ((tree.remove location).touchParent location)

/-- Removes a file or a directory with all that is below it. -/
def removeAll (tree : FileTree) (path : Path) : Except FileFault FileTree := do
  let location ← tree.locate path
  match tree.entry? location with
  | none => .error .noEntry
  | some _ =>
    let kept := tree.entries.filter fun pair => !location.isPrefixOf pair.1
    .ok ({ tree with entries := kept, clock := tree.clock + 1 }.touchParent location)

/-- Whether a path ends in a name of its own, and not in a step upwards or at its start. -/
def endsInName (path : Path) : Bool :=
  path.name ≠ "" && path.name ≠ ".."

/-- Moves a file onto a path, over a file that is there. -/
def replace (tree : FileTree) (source target : Path) : Except FileFault FileTree := do
  let old ← tree.locate source
  match tree.entry? old with
  | some (.file bytes time) =>
    let new ← tree.newLocation target
    match tree.entry? new with
    | some (.directory _) => .error (if endsInName target then .isDirectory else .busy)
    | _ => .ok (((tree.remove old).put new (.file bytes time)).touchParent new)
  | some (.directory _) => .error .isDirectory
  | none => .error .noEntry

/-- The last names of all entries. -/
def names (tree : FileTree) : List String :=
  tree.entries.map fun pair => pair.1.getLastD ""

/-- A name made from another one by some zeros. -/
def stampedName (name : String) (zeros : Nat) : String :=
  "." ++ name ++ "." ++ String.ofList (List.replicate zeros '0') ++ ".tmp"

/-- The length of the longest of some names. -/
def longest (names : List String) : Nat :=
  names.foldr (fun name size => max name.length size) 0

/-- A name made from another one that is not taken: with eight zeros, or else longer than all names
that are. -/
def freshName (taken : List String) (name : String) : String :=
  let short := stampedName name 8
  if taken.contains short then stampedName name (longest taken + 1) else short

theorem length_le_longest {names : List String} {name : String} (h : name ∈ names) :
    name.length ≤ longest names := by
  induction names with
  | nil => cases h
  | cons first rest ih =>
    cases h with
    | head => exact Nat.le_max_left _ _
    | tail _ h => exact Nat.le_trans (ih h) (Nat.le_max_right _ _)

/-- A stamped name is longer than its zeros are many. -/
theorem lt_length_stampedName (name : String) (zeros : Nat) :
    zeros < (stampedName name zeros).length := by
  have : ".".length = 1 := by decide
  simp [stampedName, String.length_append]
  omega

/-- No taken name is fresh. -/
theorem freshName_not_mem (taken : List String) (name : String) :
    freshName taken name ∉ taken := by
  unfold freshName
  by_cases h : taken.contains (stampedName name 8) = true
  · intro found
    rw [if_pos h] at found
    have := length_le_longest found
    have := lt_length_stampedName name (longest taken + 1)
    omega
  · rw [if_neg h]
    simpa using h

/-! ## Listing -/

/-- The entries strictly below a location, with the names that lead to them. -/
def below (tree : FileTree) (location : Location) : List (List String × Entry) :=
  tree.entries.filterMap fun (place, entry) =>
    if location.isPrefixOf place && location.length < place.length then
      some (place.drop location.length, entry)
    else
      none

end FileTree

end DesignTokens
