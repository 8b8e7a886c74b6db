import DesignTokens.BuildError
import DesignTokens.Resolution
/-!
# Build reports

The statistics of one run: what was produced, what failed, and how the resolution cache was used.
-/

set_option autoImplicit false

namespace DesignTokens

/-- The stages of a build, in the order in which a successful one enters them, and its two ends. -/
inductive Stage where
  | idle
  | loading
  | composing
  | resolving
  | formatting
  | writing
  | done
  | failed
  deriving DecidableEq, Repr, Inhabited

/-- The name of a stage. -/
def Stage.name : Stage → String
  | .idle => "idle"
  | .loading => "loading"
  | .composing => "composing"
  | .resolving => "resolving"
  | .formatting => "formatting"
  | .writing => "writing"
  | .done => "done"
  | .failed => "failed"

/-- How a resolution cache has been used. -/
structure CacheStats where
  size : Nat
  modes : Nat
  hits : Nat
  misses : Nat
  invalidations : Nat
  deriving DecidableEq, Repr, Inhabited

/-- The statistics of a cache. -/
def ResolutionCache.stats (cache : ResolutionCache) : CacheStats :=
  ⟨cache.size, cache.modes.length, cache.hits, cache.misses, cache.invalidations⟩

/-- The report of one run.  The time that a run takes, in tenths of a millisecond, is measured by
whoever runs it. -/
structure Report where
  totalVariables : Nat
  modeCounts : OrderedMap String Nat
  filesWritten : List String
  filesUnchanged : List String
  filesPlanned : List String
  elapsedTenths : Nat
  unresolvedTokens : Nat
  cycleDetections : Nat
  collisions : Nat
  coverageMismatches : Nat
  cache : CacheStats
  errors : List String
  dryRun : Bool
  stage : Stage
  deriving DecidableEq, Repr, Inhabited

namespace Report

/-- The report of a run that has just begun. -/
def start (dryRun : Bool) : Report :=
  { totalVariables := 0, modeCounts := [], filesWritten := [], filesUnchanged := [],
    filesPlanned := [], elapsedTenths := 0, unresolvedTokens := 0, cycleDetections := 0,
    collisions := 0, coverageMismatches := 0, cache := ⟨0, 0, 0, 0, 0⟩, errors := [],
    dryRun, stage := .idle }

/-- Whether the run went through without an error. -/
def succeeded (report : Report) : Bool :=
  report.stage == .done && report.errors.isEmpty

/-- Whether an error is a failed resolution. -/
def isResolutionError : BuildError → Bool
  | .unresolved _ => true
  | .cyclic _ => true
  | _ => false

/-- Whether an error is a cycle of references. -/
def isCycle : BuildError → Bool
  | .cyclic _ => true
  | _ => false

/-- Whether an error is a collision of identifiers. -/
def isCollision : BuildError → Bool
  | .collision _ => true
  | _ => false

/-- Whether an error is a gap of coverage. -/
def isCoverageGap : BuildError → Bool
  | .coverage _ => true
  | _ => false

/-- A counter that is still zero counts the errors of its kind. -/
def countUnless (counter : Nat) (kind : BuildError → Bool) (errors : List BuildError) : Nat :=
  if counter = 0 then errors.countP kind else counter

/-- The report of a run that failed with the given errors. -/
def fail (report : Report) (errors : List BuildError) : Report :=
  { report with
    stage := .failed
    errors := errors.map BuildError.message
    unresolvedTokens := countUnless report.unresolvedTokens isResolutionError errors
    cycleDetections := countUnless report.cycleDetections isCycle errors
    collisions := countUnless report.collisions isCollision errors
    coverageMismatches := countUnless report.coverageMismatches isCoverageGap errors }

/-- The line of the summary that tells how long a run took, in milliseconds. -/
def elapsedLine (tenths : Nat) : String :=
  "Processing time: " ++ toString (tenths / 10) ++ "." ++ toString (tenths % 10) ++ "ms"

/-- The summary of a run. -/
def summary (report : Report) : List String :=
  [s!"Total variables: {report.totalVariables}"] ++
    report.modeCounts.map (fun count => s!"  {count.1}: {count.2}") ++
    [s!"Files written: {report.filesWritten.length}",
      s!"Files unchanged: {report.filesUnchanged.length}",
      elapsedLine report.elapsedTenths,
      s!"Unresolved tokens: {report.unresolvedTokens}"] ++
    if report.dryRun then
      [s!"Dry run: {report.filesPlanned.length} file(s) would be produced"]
    else []

end Report

/-- The JSON form of cache statistics. -/
def CacheStats.toJson (stats : CacheStats) : Json :=
  .obj [("size", .int stats.size), ("modes", .int stats.modes), ("hits", .int stats.hits),
    ("misses", .int stats.misses), ("invalidations", .int stats.invalidations)]

/-- The field of a report's JSON form that tells how long the run took. -/
def Report.elapsedField (tenths : Nat) : String × Json :=
  ("processing_time_ms", .float (Binary64.ofDecimal false tenths (-1)))

/-- The JSON form of a report. -/
def Report.toJson (report : Report) : Json :=
  let texts (xs : List String) : Json := .arr (xs.map .str)
  .obj
    [("total_variables", .int report.totalVariables),
      ("mode_counts", .obj (report.modeCounts.map fun count => (count.1, .int count.2))),
      ("files_written", texts report.filesWritten),
      ("files_unchanged", texts report.filesUnchanged),
      ("files_planned", texts report.filesPlanned),
      Report.elapsedField report.elapsedTenths,
      ("unresolved_tokens", .int report.unresolvedTokens),
      ("cycle_detections", .int report.cycleDetections),
      ("collisions", .int report.collisions),
      ("coverage_mismatches", .int report.coverageMismatches),
      ("cache", report.cache.toJson),
      ("errors", texts report.errors),
      ("dry_run", .bool report.dryRun),
      ("stage", .str report.stage.name),
      ("succeeded", .bool report.succeeded)]

end DesignTokens
