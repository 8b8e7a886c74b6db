import DesignTokens.Css.Sheet
import DesignTokens.Log
/-!
# Writing output

Output files are written all or none.  A file whose text is already there is left alone.  The others
are first written beside their targets under temporary names and moved into place only when all of
them are complete; if a move is refused, the targets moved so far get back what they held.

A file system may refuse an operation for reasons that the tree does not show, such as a full disk.
Such refusals are an input here, so that their effect can be told as well.
-/

set_option autoImplicit false

namespace DesignTokens.Output

/-- The files of a build, divided by whether their text is there already. -/
structure Plan where
  changed : List OutputFile
  unchanged : List OutputFile
  deriving DecidableEq, Repr, Inhabited

/-- The paths that were written and those that were left alone. -/
structure Written where
  written : List String
  unchanged : List String
  deriving DecidableEq, Repr, Inhabited

/-- An operation of writing that the file system may refuse. -/
inductive Operation where
  | makeDirectory
  | createTemporary
  | writeTemporary
  | snapshot
  | replace
  deriving DecidableEq, Repr, Inhabited

/-- The refusals that the tree does not show: by operation, and by the position of the file among
those that are written. -/
abbrev Refusals := Operation → Nat → Option FileFault

/-- A file system that refuses nothing beyond what its tree shows. -/
def noRefusals : Refusals := fun _ _ => none

/-- The path of an output file. -/
def targetOf (directory : Path) (file : OutputFile) : Path :=
  directory.join (Path.ofString file.path)

/-- Whether the text of a file is already there. -/
def isCurrent (tree : FileTree) (directory : Path) (file : OutputFile) : Bool :=
  match tree.readText (targetOf directory file) with
  | .ok text => text == file.content
  | .error _ => false

/-- Divides files by whether their text is already there.  Each must have a path that files can
have. -/
def plan (tree : FileTree) (directory : Path) (files : List OutputFile) : Except FileFault Plan :=
  if files.any fun file => (targetOf directory file).hasNul then .error .notAPath
  else
    .ok
      { changed := files.filter fun file => !isCurrent tree directory file
        unchanged := files.filter fun file => isCurrent tree directory file }

/-! ## Staging -/

/-- A file under its temporary name, with the path it is meant for. -/
structure Staged where
  temporary : Path
  target : Path
  path : String
  deriving DecidableEq, Repr, Inhabited

/-- The state of staging: the tree, the files staged so far, and the refusal that ended it. -/
structure Staging where
  tree : FileTree
  staged : List Staged
  stopped : Option FileFault
  deriving Inhabited

/-- A fresh name beside a target; `reserved` names are not fresh. -/
def temporaryFor (tree : FileTree) (reserved : List String) (target : Path) : Path :=
  ⟨.root, tree.normalize target.parent ++
    [FileTree.freshName (reserved ++ tree.names) target.name]⟩

/-- Stages one file: makes its directory, creates the temporary file, and writes it. -/
def stage (refuses : Refusals) (directory : Path) (reserved : List String) (position : Nat)
    (tree : FileTree) (file : OutputFile) : Staging :=
  let target := targetOf directory file
  match refuses .makeDirectory position with
  | some fault => ⟨tree, [], some fault⟩
  | none =>
    match tree.makeDirectories target.parent with
    | (made, some fault) => ⟨made, [], some fault⟩
    | (made, none) =>
      let temporary := temporaryFor made reserved target
      match refuses .createTemporary position with
      | some fault => ⟨made, [], some fault⟩
      | none =>
        match made.writeBytes temporary ByteArray.empty with
        | .error fault => ⟨made, [], some fault⟩
        | .ok created =>
          let staged : Staged := ⟨temporary, target, file.path⟩
          match refuses .writeTemporary position with
          | some fault => ⟨created, [staged], some fault⟩
          | none =>
            match created.writeBytes temporary file.content.toUTF8 with
            | .error fault => ⟨created, [staged], some fault⟩
            | .ok complete => ⟨complete, [staged], none⟩

/-- Stages files one after the other, up to the first refusal. -/
def stageAll (refuses : Refusals) (directory : Path) (reserved : List String) :
    Nat → FileTree → List OutputFile → Staging
  | _, tree, [] => ⟨tree, [], none⟩
  | position, tree, file :: rest =>
    let first := stage refuses directory reserved position tree file
    match first.stopped with
    | some fault => { first with stopped := some fault }
    | none =>
      let others := stageAll refuses directory reserved (position + 1) first.tree rest
      { others with staged := first.staged ++ others.staged }

/-! ## Replacing -/

/-- What a target held before: its bytes, or nothing if there was no file. -/
structure Snapshot where
  target : Path
  bytes : Option ByteArray
  deriving Inhabited

/-- What the targets of staged files hold. -/
def snapshots (refuses : Refusals) (tree : FileTree) : Nat → List Staged →
    Except FileFault (List Snapshot)
  | _, [] => .ok []
  | position, staged :: rest =>
    let bytes : Except FileFault (Option ByteArray) :=
      if tree.hasFile staged.target then
        match refuses .snapshot position with
        | some fault => .error fault
        | none => (tree.readBytes staged.target).map some
      else .ok none
    match bytes with
    | .error fault => .error fault
    | .ok held =>
      (snapshots refuses tree (position + 1) rest).map (⟨staged.target, held⟩ :: ·)

/-- Gives a target back what it held. -/
def restoreOne (tree : FileTree) (snapshot : Snapshot) : FileTree × LogLine :=
  let restored : Except FileFault FileTree :=
    match snapshot.bytes with
    | some bytes => tree.writeBytes snapshot.target bytes
    | none => if tree.hasEntry snapshot.target then tree.removeFile snapshot.target else .ok tree
  match restored with
  | .ok after => (after, .detail s!"Rolled back {snapshot.target}")
  | .error fault => (tree, .error s!"Could not roll back {snapshot.target}: {fault.name}")

/-- Gives targets back what they held, one after the other. -/
def restore (tree : FileTree) : List Snapshot → FileTree × List LogLine
  | [] => (tree, [])
  | snapshot :: rest =>
    let (after, line) := restoreOne tree snapshot
    let (final, lines) := restore after rest
    (final, line :: lines)

/-- Moves staged files into place, up to the first refusal: the tree, the number of files moved, the
refusal, and what the log tells. -/
def replaceAll (refuses : Refusals) : Nat → FileTree → List Staged →
    FileTree × Nat × Option FileFault × List LogLine
  | _, tree, [] => (tree, 0, none, [])
  | position, tree, staged :: rest =>
    let moved : Except FileFault FileTree :=
      match refuses .replace position with
      | some fault => .error fault
      | none => tree.replace staged.temporary staged.target
    match moved with
    | .error fault => (tree, 0, some fault, [])
    | .ok after =>
      let (final, count, stopped, lines) := replaceAll refuses (position + 1) after rest
      (final, count + 1, stopped, .detail s!"Wrote {staged.target}" :: lines)

/-- Removes what is left of the temporary files. -/
def discard (tree : FileTree) : List Staged → FileTree
  | [] => tree
  | staged :: rest =>
    match tree.removeFile staged.temporary with
    | .ok after => discard after rest
    | .error _ => discard tree rest

/-- What writing yields: the paths or a refusal, the tree afterwards, and what the log tells. -/
structure Result where
  outcome : Except FileFault Written
  tree : FileTree
  log : List LogLine

/-- Moves staged files into place, all or none. -/
def commit (refuses : Refusals) (tree : FileTree) (staged : List Staged)
    (unchanged : List String) : Result :=
  match snapshots refuses tree 0 staged with
  | .error fault => ⟨.error fault, tree, []⟩
  | .ok held =>
    match replaceAll refuses 0 tree staged with
    | (after, _, none, lines) => ⟨.ok ⟨staged.map (·.path), unchanged⟩, after, lines⟩
    | (after, count, some fault, lines) =>
      let (restored, undone) := restore after (held.take count).reverse
      ⟨.error fault, restored, lines ++ undone⟩

/-- Writes files below a directory, under the given refusals. -/
def writeUnder (refuses : Refusals) (tree : FileTree) (directory : Path)
    (files : List OutputFile) : Result :=
  match plan tree directory files with
  | .error fault => ⟨.error fault, tree, []⟩
  | .ok ⟨[], unchanged⟩ =>
    ⟨.ok ⟨[], unchanged.map (·.path)⟩, tree, [.info "Output is up to date"]⟩
  | .ok ⟨changed, unchanged⟩ =>
    let reserved := files.map fun file => (targetOf directory file).name
    let staging := stageAll refuses directory reserved 0 tree changed
    let result : Result :=
      match staging.stopped with
      | some fault => ⟨.error fault, staging.tree, []⟩
      | none => commit refuses staging.tree staging.staged (unchanged.map (·.path))
    { result with tree := discard result.tree staging.staged }

/-- Writes files below a directory. -/
def write (tree : FileTree) (directory : Path) (files : List OutputFile) : Result :=
  writeUnder noRefusals tree directory files

end DesignTokens.Output
