import DesignTokens.BuildError
/-!
# Polling for changes

A poller looks at files and directories from time to time and tells which files have changed since
it last looked: new ones, ones with a later time of change, and ones that are gone.
-/

set_option autoImplicit false

namespace DesignTokens

/-- The files that were seen, with their times of change. -/
abbrev Scan := OrderedMap Path Int

/-- What a poller looks at, the name patterns it looks for in directories, and what it last saw. -/
structure Poller where
  paths : List Path
  patterns : List String
  seen : Scan
  deriving DecidableEq, Repr, Inhabited

namespace Poller

/-- The patterns of token documents and metadata. -/
def defaultPatterns : List String := ["*.json"]

/-- A poller that has not looked yet; without patterns it looks for token documents. -/
def new (paths : List Path) (patterns : List String) : Poller :=
  ⟨paths, if patterns.isEmpty then defaultPatterns else patterns, []⟩

/-- The files to see at one path.  Patterns are read where there is a directory. -/
def scanPath (patterns : List String) (tree : FileTree) (path : Path) :
    Except Breakdown (List (Path × Int)) :=
  match tree.stat path with
  | .error .nameTooLong => .error (.file .nameTooLong)
  | .error _ => .ok []
  | .ok (.file _ changed) => .ok [(path, changed)]
  | .ok (.directory _) =>
    match patterns.mapM (tree.glob path) with
    | .ok found => .ok found.flatten
    | .error fault => .error (.pattern fault)

/-- The files to see now. -/
def scan (poller : Poller) (tree : FileTree) : Except Breakdown Scan :=
  (poller.paths.mapM (scanPath poller.patterns tree)).map fun found =>
    OrderedMap.ofPairs found.flatten

/-- Whether a file that is seen now was not seen before, or had an earlier time. -/
def isNewer (before : Scan) (file : Path × Int) : Bool :=
  match OrderedMap.get? before file.1 with
  | none => true
  | some changed => changed < file.2

/-- The files that differ between two scans, in order. -/
def changes (before now : Scan) : List Path :=
  Path.sort ((now.filter (isNewer before)).map (·.1) ++
    (OrderedMap.keys before).filter fun path => !OrderedMap.has now path)

/-- Looks again, and tells what has changed since the last look. -/
def poll (poller : Poller) (tree : FileTree) : Except Breakdown (List Path × Poller) :=
  (poller.scan tree).map fun now => (changes poller.seen now, { poller with seen := now })

end Poller

end DesignTokens
