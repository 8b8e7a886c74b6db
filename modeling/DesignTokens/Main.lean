import DesignTokens.Cli.Reach
import DesignTokens.FileTree.Difference
/-!
# The program

Copies what a request reaches from the disk into a file tree, serves the request there, and writes
the changed files back, each through a file beside it.  All that is decided is decided on the tree.
-/

set_option autoImplicit false

open DesignTokens

namespace DesignTokens.Cli

/-- The text of a location on the disk. -/
def diskPath (location : Location) : String :=
  "/" ++ "/".intercalate location

/-- The text of the location beside a file where its new contents are written first. -/
def stagedPath (location : Location) : String :=
  diskPath (location.dropLast ++ ["." ++ location.getLastD "" ++ ".tmp"])

/-- Copies what stands at a location of the disk, and all below it. -/
partial def copyFrom (tree : FileTree) (location : Location) : IO FileTree := do
  let place := (← IO.currentDir) / diskPath location
  match ← place.metadata.toBaseIO with
  | .error _ => return tree
  | .ok data =>
    let changed : Int := data.modified.sec * 1000000000 + data.modified.nsec.toNat
    if data.type == .dir then
      let mut copied := tree.put location (.directory changed)
      for item in ← place.readDir do
        copied ← copyFrom copied (location ++ [item.fileName])
      return copied
    else if data.type == .file then
      return tree.put location (.file (← IO.FS.readBinFile place) changed)
    else
      return tree

/-- Copies paths with the directories above them. -/
def copyPaths (tree : FileTree) (paths : List Path) : IO FileTree := do
  let mut copied := tree
  for path in paths do
    let location := tree.normalize path
    for count in List.range location.length do
      let above := location.take count
      if (copied.entry? above).isNone && (← ((← IO.currentDir) / diskPath above).isDir) then
        copied := copied.put above (.directory 0)
    if (copied.entry? location).isNone then
      copied ← copyFrom copied location
  return copied

/-- A tree that holds nothing but the way to the working directory. -/
def bareTree : IO FileTree := do
  let here := Path.ofString (← IO.currentDir).toString
  let above := (List.range here.names.length).map fun count => here.names.take (count + 1)
  return ⟨above.map fun location => (location, .directory 0), here.names, 0⟩

/-- Copies all that a request reaches with its settings, and the given paths. -/
def copyReach (request : Request) (further : List Path) : IO FileTree := do
  let bare ← bareTree
  let settled ← copyPaths bare (request.settingsPaths bare)
  copyPaths settled (request.pathsIn settled ++ further)

/-- Gives the files of a list back what they held. -/
def putBack (before : FileTree) (files : List (Location × ByteArray)) : IO Unit := do
  for (location, _) in files do
    let place := (← IO.currentDir) / diskPath location
    match before.fileAt? location with
    | some bytes => IO.FS.writeBinFile place bytes
    | none => if ← place.pathExists then IO.FS.removeFile place
    let staged := (← IO.currentDir) / stagedPath location
    if ← staged.pathExists then IO.FS.removeFile staged

/-- Writes the files that have changed to the disk, all or none. -/
def writeBack (before after : FileTree) : IO Unit := do
  let here ← IO.currentDir
  for location in before.newDirectories after do
    IO.FS.createDirAll (here / diskPath location)
  let files := before.writtenFiles after
  try
    for (location, bytes) in files do
      IO.FS.writeBinFile (here / stagedPath location) bytes
    for (location, _) in files do
      IO.FS.rename (here / stagedPath location) (here / diskPath location)
  catch fault =>
    putBack before files
    throw fault

/-- The name of a level in the log. -/
def levelName : LogLevel → String
  | .detail => "DEBUG"
  | .info => "INFO"
  | .warning => "WARNING"
  | .error => "ERROR"

/-- Tells log lines. -/
def tell (lines : List LogLine) : IO Unit := do
  for line in lines do
    IO.eprintln (levelName line.level ++ ": " ++ line.message)

/-- Goes on watching until the program is interrupted. -/
partial def watchOn (request : Request) (watcher : Watcher) : IO Unit := do
  IO.sleep request.pollMilliseconds.toUInt32
  let tree ← copyReach request (request.buildPaths watcher.pipeline.config)
  let answer := watcher.watchRound tree []
  writeBack tree answer.tree
  tell answer.log
  watchOn request answer.watcher

/-- Builds once, then watches. -/
def watch (request : Request) (config : Config) (tree : FileTree) : IO UInt32 := do
  let pipeline := Pipeline.new config .empty request.verbose
  let built := (request.watcher tree pipeline).rebuild tree false []
  writeBack tree built.tree
  tell built.log
  match built.result with
  | .error cause =>
    IO.eprintln cause.message
    return 1
  | .ok () =>
    match built.watcher.start built.tree with
    | .error cause =>
      IO.eprintln cause.message
      return 1
    | .ok (started, told) =>
      tell told
      watchOn request started
      return 0

/-- Serves a request to build once. -/
def buildNow (tree : FileTree) (arguments : List String) : IO UInt32 := do
  let begun ← IO.monoNanosNow
  let answer := run false tree arguments
  writeBack tree answer.tree
  let tenths := ((← IO.monoNanosNow) - begun) / 100000
  tell (answer.log.map (timedLine tenths))
  match answer.outcome with
  | .error cause =>
    IO.eprintln cause.message
    return 1
  | .ok code =>
    match answer.stdout with
    | some json => IO.println ((timedJson tenths json).renderIndented 0)
    | none => pure ()
    return code.toUInt32

/-- The options in short. -/
def usage : String :=
  "options: [--config FILE] [--data-dir DIR] [--output-dir DIR] [--mode NAME] [--dry-run] " ++
    "[--verbose] [--watch] [--poll-interval SECONDS] [--json]"

end DesignTokens.Cli

/-- Runs the command. -/
def main (arguments : List String) : IO UInt32 := do
  match Cli.parse arguments with
  | .help =>
    IO.println Cli.usage
    return 0
  | .usage =>
    IO.eprintln Cli.usage
    return 2
  | .request request =>
    let tree ← Cli.copyReach request []
    match request.watch, request.origin.load tree with
    | true, .ok config => Cli.watch request config tree
    | _, _ => Cli.buildNow tree arguments
