import DesignTokens.FileTree.Basic
/-!
# Differences of file trees

What a tree has that an earlier one had not: directories, and files with other bytes.
-/

set_option autoImplicit false

namespace DesignTokens.FileTree

/-- The directories of a tree that an earlier one lacks, those above before those below. -/
def newDirectories (before after : FileTree) : List Location :=
  let found := after.entries.filterMap fun (location, entry) =>
    if entry.isDirectory && (before.entry? location).isNone then some location else none
  found.mergeSort fun a b => a.length ≤ b.length

/-- The files of a tree that an earlier one lacks or has with other bytes. -/
def writtenFiles (before after : FileTree) : List (Location × ByteArray) :=
  after.entries.filterMap fun (location, entry) =>
    match entry with
    | .directory _ => none
    | .file bytes _ =>
      match before.fileAt? location with
      | some held => if held.data = bytes.data then none else some (location, bytes)
      | none => some (location, bytes)

end DesignTokens.FileTree
