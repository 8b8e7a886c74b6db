import DesignTokens.Build.Pipeline
import DesignTokens.Config.File
import DesignTokens.Watch.Coordination
import DesignTokens.Watch.Poller
/-!
# Watching the sources

A watcher rebuilds whenever a source changes.  A failed rebuild is told in the log and counted; the
output stays as it was.  When the settings or the metadata change, the settings are loaded anew
before the next build; settings that cannot be loaded leave the previous ones in place.
-/

set_option autoImplicit false

namespace DesignTokens

/-- A watcher: the pipeline it runs with its options, where its settings come from, what it looks
at, and what it has done so far. -/
structure Watcher where
  pipeline : Pipeline
  options : BuildOptions
  configFile : Option Path
  reloadFrom : Option ConfigOrigin
  explicitPaths : List Path
  poller : Poller
  coordination : Coordination
  builds : Nat
  failures : Nat
  reloads : Nat
  deriving Inhabited

namespace Watcher

/-- What to look at: the paths that were asked for, else the data directory and the settings file. -/
def watchPaths (explicit : List Path) (pipeline : Pipeline) (configFile : Option Path) :
    List Path :=
  if explicit.isEmpty then pipeline.config.dataDir :: configFile.toList else explicit

/-- A watcher that has done nothing yet.  In directories it looks for token documents. -/
def new (pipeline : Pipeline) (options : BuildOptions) (explicit : List Path)
    (configFile : Option Path) (reloadFrom : Option ConfigOrigin) : Watcher :=
  { pipeline, options, configFile, reloadFrom
    explicitPaths := explicit
    poller := Poller.new (watchPaths explicit pipeline configFile) []
    coordination := .quiet
    builds := 0, failures := 0, reloads := 0 }

/-- What an operation of a watcher yields; only a breakdown ends one early. -/
structure Answer where
  result : Except Breakdown Unit
  watcher : Watcher
  tree : FileTree
  log : List LogLine

/-- The location of a path, wherever it leads; there must be a location. -/
def placeOf (tree : FileTree) (path : Path) : Except Breakdown Location :=
  if path.hasNul then .error (.file .notAPath) else .ok (tree.normalize path)

/-- Whether a location is the one of some path. -/
def isAmong (tree : FileTree) (place : Location) : List Path → Except Breakdown Bool
  | [] => .ok false
  | path :: paths =>
    match placeOf tree path with
    | .error cause => .error cause
    | .ok watched => if place = watched then .ok true else isAmong tree place paths

/-- Whether a path is the settings file or the metadata of the data directory. -/
def isConfigChange (watcher : Watcher) (tree : FileTree) (path : Path) : Except Breakdown Bool :=
  let metadata := watcher.pipeline.config.dataDir.join (Path.ofString Metadata.fileName)
  match placeOf tree path with
  | .error cause => .error cause
  | .ok place => isAmong tree place (metadata :: watcher.configFile.toList)

/-- Whether some path is the settings file or the metadata, up to the first one that is. -/
def anyConfigChange (watcher : Watcher) (tree : FileTree) : List Path → Except Breakdown Bool
  | [] => .ok false
  | path :: paths =>
    match watcher.isConfigChange tree path with
    | .ok false => anyConfigChange watcher tree paths
    | found => found

/-- Whether some path leads to nothing, up to the first one that does. -/
def anyGone (tree : FileTree) : List Path → Except Breakdown Bool
  | [] => .ok false
  | path :: paths =>
    match tree.findEntry path with
    | .error fault => .error (.file fault)
    | .ok true => anyGone tree paths
    | .ok false => .ok true

/-- Loads the settings anew, if the watcher knows from where. -/
def reload (watcher : Watcher) (tree : FileTree) : Answer :=
  match watcher.reloadFrom with
  | none => ⟨.ok (), watcher, tree, []⟩
  | some origin =>
    match origin.load tree with
    | .error (.breakdown cause) => ⟨.error cause, watcher, tree, []⟩
    | .error failure =>
      ⟨.ok (), watcher, tree,
        [.error s!"Config reload failed, keeping previous config: {failure.message}"]⟩
    | .ok config =>
      let pipeline := Pipeline.new config watcher.pipeline.cache watcher.pipeline.detailed
      let paths := watchPaths watcher.explicitPaths pipeline watcher.configFile
      let line := s!"Reloaded config: {config.layers.length} layer(s), " ++
        s!"modes {Text.quotedList config.modes}"
      ⟨.ok (),
        { watcher with
          pipeline
          poller := { watcher.poller with paths }
          reloads := watcher.reloads + 1 },
        tree, [.info line]⟩

/-- Runs one build.  The triggers that arrive while it is under way raise their flags. -/
def buildOnce (watcher : Watcher) (tree : FileTree) (arrivals : List Bool) : Answer :=
  let announced :=
    { watcher with
      builds := watcher.builds + 1
      coordination := arrivals.foldl Coordination.announce watcher.coordination }
  let answer := watcher.pipeline.run tree watcher.options
  let after := { announced with pipeline := answer.pipeline }
  match answer.result with
  | .ok _ => ⟨.ok (), after, answer.tree, answer.log⟩
  | .error (.breakdown cause) => ⟨.error cause, after, answer.tree, answer.log⟩
  | .error failure =>
    ⟨.ok (), { after with failures := after.failures + 1 }, answer.tree,
      answer.log ++ [.error s!"Rebuild failed: {failure.message}"]⟩

/-- Serves the flags that were taken: a reload if one is wanted, then a build. -/
def serve (watcher : Watcher) (tree : FileTree) (wantsReload : Bool) (arrivals : List Bool) :
    Answer :=
  let reloaded : Answer :=
    if wantsReload then watcher.reload tree else ⟨.ok (), watcher, tree, []⟩
  match reloaded.result with
  | .error cause => ⟨.error cause, reloaded.watcher, reloaded.tree, reloaded.log⟩
  | .ok () =>
    let built := reloaded.watcher.buildOnce reloaded.tree arrivals
    { built with log := reloaded.log ++ built.log }

/-- Serves flags until none is raised.  `arrivals` tells which triggers come while the first, the
second, … build is under way; none come later. -/
def serveAll (watcher : Watcher) (tree : FileTree) (arrivals : List (List Bool)) : Answer :=
  match watcher.coordination.take with
  | none => ⟨.ok (), watcher, tree, []⟩
  | some (wantsReload, taken) =>
    let ready := { watcher with coordination := taken }
    match arrivals with
    | [] => ready.serve tree wantsReload []
    | first :: later =>
      let served := ready.serve tree wantsReload first
      match served.result with
      | .error _ => served
      | .ok () =>
        let more := served.watcher.serveAll served.tree later
        { more with log := served.log ++ more.log }

/-- Runs a build, and a further one for the triggers that come meanwhile.  The lock is released
also when serving breaks down; flags that are raised then stay raised. -/
def rebuild (watcher : Watcher) (tree : FileTree) (wantsReload : Bool)
    (arrivals : List (List Bool)) : Answer :=
  let announced := watcher.coordination.announce wantsReload
  match announced.tryLock with
  | none => ⟨.ok (), { watcher with coordination := announced }, tree, []⟩
  | some locked =>
    let served := { watcher with coordination := locked }.serveAll tree arrivals
    { served with
      watcher :=
        { served.watcher with coordination := served.watcher.coordination.release } }

/-- Rebuilds for changed files.  A file that is gone makes the store forget its documents. -/
def onChange (watcher : Watcher) (tree : FileTree) (changed : List Path)
    (arrivals : List (List Bool)) : Answer :=
  let told := changed.map fun path => LogLine.info s!"Change detected: {path}"
  match anyGone tree changed with
  | .error cause => ⟨.error cause, watcher, tree, told⟩
  | .ok gone =>
    let cleared := { watcher.pipeline with store := watcher.pipeline.store.clear }
    let ready := if gone then { watcher with pipeline := cleared } else watcher
    let wantsReload :=
      if watcher.reloadFrom.isSome then watcher.anyConfigChange tree changed else .ok false
    match wantsReload with
    | .error cause => ⟨.error cause, ready, tree, told⟩
    | .ok wants =>
      let answer := ready.rebuild tree wants arrivals
      { answer with log := told ++ answer.log }

/-- Looks for changes. -/
def poll (watcher : Watcher) (tree : FileTree) : Except Breakdown (List Path × Watcher) :=
  match watcher.poller.poll tree with
  | .ok (changed, poller) => .ok (changed, { watcher with poller })
  | .error cause => .error cause

/-- What the log tells of a breakdown in a round of watching. -/
def roundError : LogLine := .error "File watcher error"

/-- One round of watching: looks for changes and rebuilds if there are any.  A breakdown is told in
the log, and watching goes on. -/
def watchRound (watcher : Watcher) (tree : FileTree) (arrivals : List (List Bool)) : Answer :=
  match watcher.poll tree with
  | .error _ => ⟨.ok (), watcher, tree, [roundError]⟩
  | .ok ([], polled) => ⟨.ok (), polled, tree, []⟩
  | .ok (changed, polled) =>
    let answer := polled.onChange tree changed arrivals
    match answer.result with
    | .ok () => answer
    | .error _ => { answer with result := .ok (), log := answer.log ++ [roundError] }

/-- Begins watching: from now on, changes count. -/
def start (watcher : Watcher) (tree : FileTree) : Except Breakdown (Watcher × List LogLine) :=
  let poller := watcher.poller
  match poller.scan tree with
  | .error cause => .error cause
  | .ok seen =>
    .ok ({ watcher with poller := { poller with seen } },
      [.info s!"Watching {poller.paths.length} path(s) for token changes"])

/-- Builds once, then watches.  Stopped at once, it leaves the watcher as it starts watching. -/
def runUntilStopped (watcher : Watcher) (tree : FileTree) (arrivals : List (List Bool)) : Answer :=
  let built := watcher.rebuild tree false arrivals
  match built.result with
  | .error _ => built
  | .ok () =>
    match built.watcher.start built.tree with
    | .error cause => { built with result := .error cause }
    | .ok (started, told) =>
      { built with watcher := started, log := built.log ++ told ++ [.info "Watch stopped"] }

end Watcher

end DesignTokens
