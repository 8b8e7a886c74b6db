import DesignTokens.Build.Report
import DesignTokens.Output
import DesignTokens.Store
/-!
# Builds

A build goes through its stages in order: documents are loaded into layers, the layers composed into
one tree per mode, the trees resolved, the resolved trees rendered into style sheets, and these
written.  All stages but the last happen in memory, so a failure before it leaves the output as it
was.  A dry run goes on past errors where it can, reports all it has found, and writes nothing.
-/

set_option autoImplicit false

namespace DesignTokens

/-- A builder for one set of settings.  Between builds it keeps the documents it has read, the
references it has resolved, the stage it came to, and its last report.  With `detailed`, it always
tells the details of what it does. -/
structure Pipeline where
  config : Config
  cache : ResolutionCache
  store : Store
  stage : Stage
  lastReport : Option Report
  detailed : Bool
  deriving Inhabited

/-- What a successful build yields. -/
structure BuildResult where
  report : Report
  resolved : ByMode ResolvedTree
  files : List OutputFile
  deriving Inhabited

namespace Build

/-- How far a build has come. -/
structure Progress where
  stage : Stage
  report : Report
  store : Store
  cache : ResolutionCache
  log : List LogLine
  deriving Inhabited

namespace Progress

/-- Adds lines to the log. -/
def say (progress : Progress) (lines : List LogLine) : Progress :=
  { progress with log := progress.log ++ lines }

/-- Enters a stage. -/
def enter (progress : Progress) (stage : Stage) : Progress :=
  { progress with stage, report := { progress.report with stage } }
    |>.say [.info s!"Stage: {stage.name}"]

/-- Changes the report. -/
def note (progress : Progress) (change : Report → Report) : Progress :=
  { progress with report := change progress.report }

end Progress

/-- What a stage yields: something to go on with, or the failure that ends the build. -/
structure Step (α : Type) where
  outcome : Except Failure α
  progress : Progress

/-- Goes on with what a stage yields, unless it has ended the build. -/
def Step.andThen {α β : Type} (step : Step α) (next : Progress → α → Step β) : Step β :=
  match step.outcome with
  | .ok value => next step.progress value
  | .error failure => ⟨.error failure, step.progress⟩

/-- What a build writes: the files, and the resolved trees that they show. -/
structure Planned where
  resolved : ByMode ResolvedTree
  files : List OutputFile
  deriving Inhabited

/-- How a build ends, with the tree as it leaves it. -/
structure Ending where
  outcome : Except Failure Planned
  progress : Progress
  tree : FileTree

/-- What a build is given: its settings, its options, whether it tells details, the tree it works in,
and what the file system refuses beyond what the tree shows. -/
structure Task where
  config : Config
  options : BuildOptions
  detailed : Bool
  tree : FileTree
  refuses : Output.Refusals

/-- Where a build writes. -/
def Task.outputDir (task : Task) : Path :=
  task.options.outputDir.getD task.config.outputDir

/-! ## Stages -/

/-- The built modes, the default mode first: all, or those that are asked for. -/
def selectModes (config : Config) (asked : Option (List String)) :
    Except BuildError (List String) :=
  match asked with
  | none | some [] => .ok config.orderedModes
  | some modes =>
    match modes.find? fun mode => !config.modes.contains mode with
    | some mode => .error (.config (.unknownMode mode config.modes))
    | none => .ok (config.orderedModes.filter fun mode => modes.contains mode)

/-- Finds the modes to build. -/
def selecting (task : Task) (progress : Progress) : Step (List String) :=
  ⟨(selectModes task.config task.options.modes).mapError Failure.error, progress⟩

/-- What the log tells a verbose run of the loaded layers. -/
def layerLines (layers : List Layer) : List LogLine :=
  (Store.countTokens layers).map fun count => .detail s!"  layer {count.1}: {count.2} tokens"

/-- Loads the documents.  A malformed one ends the build in any case. -/
def loading (task : Task) (progress : Progress) : Step (List Layer) :=
  let entered := progress.enter .loading
  let loaded := Store.load task.options.dryRun task.tree entered.store task.config.layers
  let told := { entered with store := loaded.store }.say loaded.log
  match loaded.stopped, loaded.errors with
  | some failure, _ => ⟨.error failure, told⟩
  | none, first :: rest => ⟨.error (.collected (first :: rest)), told⟩
  | none, [] => ⟨.ok loaded.layers, told.say (layerLines loaded.layers)⟩

/-- What the log tells a verbose run of a composed mode. -/
def composedLine (layers : List Layer) (entry : String × TokenTree) : LogLine :=
  .detail (s!"Composed mode {entry.1}: {entry.2.length} tokens, " ++
    toString (Cascade.overrides layers entry.1) ++ " overrides")

/-- Checks that all composed trees have the same paths; yields the errors that a dry run gathers. -/
def composing (task : Task) (progress : Progress) (layers : List Layer)
    (composed : ByMode TokenTree) : Step (List BuildError) :=
  let told := (progress.enter .composing).say (composed.map (composedLine layers))
  let gaps := Cascade.coverageGaps composed
  let noted := told.note fun report => { report with coverageMismatches := gaps.length }
  match gaps, task.options.dryRun with
  | gap :: _, false => ⟨.error (.error (.coverage gap)), noted⟩
  | _, _ => ⟨.ok (gaps.map BuildError.coverage), noted⟩

/-- What resolving the trees of several modes yields. -/
structure ResolvedAll where
  resolved : ByMode ResolvedTree
  errors : List BuildError
  stopped : Option Failure
  unresolved : Nat
  cache : ResolutionCache
  log : List LogLine
  deriving Inhabited

/-- What the log tells of a resolved mode: its tokens, and how many could not be resolved. -/
def resolvedLines (mode : String) (tree : TokenTree) (resolved : ResolvedTree) : List LogLine :=
  let failed := tree.length - resolved.length
  (if failed = 0 then [] else
    [.warning s!"Mode {mode}: {failed} token(s) could not be resolved"]) ++
    [.info s!"Resolved mode {mode}: {resolved.length} tokens"]

/-- What the log tells a verbose run of a resolution: what became of the cache, and every resolved
token. -/
def resolutionDetails (cache : ResolutionCache) (mode : String) (tree : TokenTree)
    (resolved : ResolvedTree) : List LogLine :=
  cache.bindLines mode tree ++
    resolved.map fun entry => Resolution.resolvedLine tree mode entry.2

/-- Resolves the trees of several modes, one after the other, up to the first failure.  Errors may
be gathered instead, but no tree without a fingerprint is passed over. -/
def resolveAll (collect detailed : Bool) : ResolutionCache → List (String × TokenTree) → ResolvedAll
  | cache, [] => ⟨[], [], none, 0, cache, []⟩
  | cache, (mode, tree) :: rest =>
    let (outcome, after) := cache.resolve collect tree mode
    let details := if detailed then resolutionDetails cache mode tree outcome.resolved else []
    match outcome.stopped with
    | some failure => ⟨[], outcome.errors, some failure, 0, after, details⟩
    | none =>
      let more := resolveAll collect detailed after rest
      { more with
        resolved := (mode, outcome.resolved) :: more.resolved
        errors := outcome.errors ++ more.errors
        unresolved := (tree.length - outcome.resolved.length) + more.unresolved
        log := details ++ resolvedLines mode tree outcome.resolved ++ more.log }

/-- Resolves the composed trees. -/
def resolving (task : Task) (progress : Progress) (composed : ByMode TokenTree) :
    Step ResolvedAll :=
  let entered := progress.enter .resolving
  let all := resolveAll task.options.dryRun task.detailed entered.cache composed
  let told := { entered with cache := all.cache }.say all.log
  let noted := told.note fun report =>
    { report with
      unresolvedTokens := all.unresolved
      cycleDetections := all.errors.countP Report.isCycle }
  match all.stopped with
  | some failure => ⟨.error failure, noted⟩
  | none => ⟨.ok all, noted⟩

/-- The paths that are emitted in some sheet, in cascade order. -/
def emittedPaths (config : Config) (resolved : ByMode ResolvedTree) : List TokenPath :=
  (Css.emittedPaths config resolved).flatMap (·.2)

/-- Finds the identifiers of the emitted paths; tokens that are not emitted need none.  A dry run
ends here if it has gathered any error. -/
def naming (task : Task) (progress : Progress) (gathered : List BuildError)
    (resolved : ByMode ResolvedTree) : Step (OrderedMap TokenPath String) :=
  let claims := Claims.ofPaths (emittedPaths task.config resolved)
  let noted := progress.note fun report => { report with collisions := claims.collisions.length }
  let errors := claims.collisions.map BuildError.collision
  if task.options.dryRun then
    match gathered ++ errors with
    | [] => ⟨.ok claims.identifiers, noted⟩
    | found => ⟨.error (.collected found), noted⟩
  else
    match errors with
    | [] => ⟨.ok claims.identifiers, noted⟩
    | first :: _ => ⟨.error (.error first), noted⟩

/-- Renders the files. -/
def formatting (task : Task) (progress : Progress) (resolved : ByMode ResolvedTree)
    (identifiers : OrderedMap TokenPath String) : Step Planned :=
  let entered := progress.enter .formatting
  match Css.files task.config resolved identifiers with
  | .error failure => ⟨.error failure, entered⟩
  | .ok files =>
    let counts := Css.modeCounts task.config resolved
    let noted := entered.note fun report =>
      { report with
        modeCounts := counts
        totalVariables := (counts.map (·.2)).foldr (· + ·) 0
        filesPlanned := files.map (·.path) }
    ⟨.ok ⟨resolved, files⟩, noted⟩

/-- Goes through all stages before the files are written. -/
def planning (task : Task) (progress : Progress) : Step Planned :=
  (selecting task progress).andThen fun selected modes =>
  (loading task selected).andThen fun loaded layers =>
  let composed := Cascade.composeAll layers modes
  (composing task loaded layers composed).andThen fun checked gathered =>
  (resolving task checked composed).andThen fun settled all =>
  (naming task settled (gathered ++ all.errors) all.resolved).andThen fun named identifiers =>
  formatting task named all.resolved identifiers

/-- Writes the files, unless the run is dry. -/
def writing (task : Task) (progress : Progress) (planned : Planned) : Ending :=
  if task.options.dryRun then
    ⟨.ok planned, progress.enter .done, task.tree⟩
  else
    let entered := progress.enter .writing
    let result := Output.writeUnder task.refuses task.tree task.outputDir planned.files
    let told := entered.say result.log
    match result.outcome with
    | .error .notAPath => ⟨.error (.breakdown (.file .notAPath)), told, result.tree⟩
    | .error fault => ⟨.error (.error (.output task.outputDir fault)), told, result.tree⟩
    | .ok written =>
      let noted := told.note fun report =>
        { report with filesWritten := written.written, filesUnchanged := written.unchanged }
      ⟨.ok planned, noted.enter .done, result.tree⟩

/-- Goes through all stages.  A build that fails before it writes leaves the tree as it is. -/
def stages (task : Task) (progress : Progress) : Ending :=
  let plan := planning task progress
  match plan.outcome with
  | .ok planned => writing task plan.progress planned
  | .error failure => ⟨.error failure, plan.progress, task.tree⟩

/-- Settles the report of a build that has ended: a failure is counted and listed, a breakdown
leaves the report as it is. -/
def settle (ending : Ending) : Progress :=
  let settled :=
    match ending.outcome with
    | .error (.breakdown _) | .ok _ => ending.progress
    | .error failure =>
      { ending.progress.note (fun report => report.fail failure.errors) with stage := .failed }
  settled.note fun report => { report with cache := settled.cache.stats }

/-- What the log tells at the end of a successful build. -/
def closingLines (report : Report) : List LogLine :=
  report.summary.map LogLine.info ++
    if report.dryRun then [.info "Dry run completed - no files were written"] else []

end Build

namespace Pipeline

/-- A pipeline that has not built anything yet; it may share what another one has resolved. -/
def new (config : Config) (cache : ResolutionCache) (detailed : Bool) : Pipeline :=
  ⟨config, cache, Store.new config.dataDir, .idle, none, detailed⟩

/-- What an operation of a pipeline yields: its answer, the pipeline and the tree afterwards, and
what the log tells. -/
structure Answer (α : Type) where
  result : Except Failure α
  pipeline : Pipeline
  tree : FileTree
  log : List LogLine

/-- What a build of a pipeline is given. -/
def task (refuses : Output.Refusals) (pipeline : Pipeline) (tree : FileTree)
    (options : BuildOptions) : Build.Task :=
  ⟨pipeline.config, options, options.verbose || pipeline.detailed, tree, refuses⟩

/-- Where a build of a pipeline begins. -/
def start (pipeline : Pipeline) (options : BuildOptions) : Build.Progress :=
  ⟨pipeline.stage, Report.start options.dryRun, pipeline.store, pipeline.cache, []⟩

/-- Runs one build on a file system that may refuse to write. -/
def buildUnder (refuses : Output.Refusals) (pipeline : Pipeline) (tree : FileTree)
    (options : BuildOptions) : Answer BuildResult :=
  let task := pipeline.task refuses tree options
  let ending := Build.stages task (pipeline.start options)
  let final := Build.settle ending
  let closing := if ending.outcome.isOk then Build.closingLines final.report else []
  { result := ending.outcome.map fun planned => ⟨final.report, planned.resolved, planned.files⟩
    pipeline :=
      { pipeline with
        cache := final.cache, store := final.store, stage := final.stage
        lastReport := some final.report }
    tree := ending.tree
    log := shownLines task.detailed (final.log ++ closing) }

/-- Runs one build. -/
def build (pipeline : Pipeline) (tree : FileTree) (options : BuildOptions) :
    Answer BuildResult :=
  pipeline.buildUnder Output.noRefusals tree options

/-- Runs one build on a file system that may refuse to write, and keeps only its report. -/
def runUnder (refuses : Output.Refusals) (pipeline : Pipeline) (tree : FileTree)
    (options : BuildOptions) : Answer Report :=
  let answer := pipeline.buildUnder refuses tree options
  ⟨answer.result.map (·.report), answer.pipeline, answer.tree, answer.log⟩

/-- Runs one build and keeps only its report. -/
def run (pipeline : Pipeline) (tree : FileTree) (options : BuildOptions) : Answer Report :=
  pipeline.runUnder Output.noRefusals tree options

/-- The tree of one mode, composed from the documents as they are now. -/
def composeMode (pipeline : Pipeline) (tree : FileTree) (mode : String) : Answer TokenTree :=
  match Build.selectModes pipeline.config (some [mode]) with
  | .error error => ⟨.error (.error error), pipeline, tree, []⟩
  | .ok _ =>
    let loaded := Store.load false tree pipeline.store pipeline.config.layers
    let read := { pipeline with store := loaded.store }
    match loaded.stopped with
    | some failure => ⟨.error failure, read, tree, loaded.log⟩
    | none =>
      let composed := Cascade.compose loaded.layers mode
      let details := [Build.composedLine loaded.layers (mode, composed)]
      ⟨.ok composed, read, tree, loaded.log ++ shownLines pipeline.detailed details⟩

/-- The literal of one token in one mode. -/
def resolveToken (pipeline : Pipeline) (tree : FileTree) (dotted mode : String) : Answer Scalar :=
  let composed := pipeline.composeMode tree mode
  match composed.result with
  | .error failure => ⟨.error failure, composed.pipeline, tree, composed.log⟩
  | .ok tokens =>
    let (found, cache) :=
      composed.pipeline.cache.resolvePath tokens mode (TokenPath.ofDotted dotted)
    let details := composed.pipeline.cache.bindLines mode tokens
    ⟨found, { composed.pipeline with cache }, tree,
      composed.log ++ shownLines pipeline.detailed details⟩

/-- A layer as a listing of the cascade shows it. -/
structure LayerLine where
  source : LayerSource
  priority : Nat
  deriving Repr, Inhabited

/-- The layers in cascade order, lowest priority first. -/
def describeLayers (pipeline : Pipeline) : List LayerLine :=
  pipeline.config.layers.zipIdx.map fun (source, priority) => ⟨source, priority⟩

end Pipeline

end DesignTokens
