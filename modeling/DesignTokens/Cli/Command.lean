import DesignTokens.Cli.Arguments
import DesignTokens.Tools
import DesignTokens.Watch.Watcher
/-!
# The command

Builds the style sheets that the command line asks for.  The command succeeds with exit code 0; a
build that fails tells its errors in the log and exits with 1, wrong arguments exit with 2.
-/

set_option autoImplicit false

namespace DesignTokens.Cli

/-- What a run of the command yields.  A call with wrong arguments or for help answers nothing
else; a breakdown has no exit code. -/
structure Answer where
  outcome : Except Breakdown Nat
  stdout : Option Json
  usage : Bool
  tree : FileTree
  log : List LogLine
  detailed : Bool

/-- Where the settings of a request are. -/
def Request.origin (request : Request) : ConfigOrigin :=
  .ofNames request.config request.dataDir

/-- The build options of a request. -/
def Request.options (request : Request) : BuildOptions :=
  ⟨request.dryRun, request.verbose, request.watch, request.modes, request.outputDir⟩

/-- The lines of the log that tell a failure: one per error. -/
def failureLines (failure : Failure) : List LogLine :=
  failure.errors.map fun e => .error e.message

/-- The answer to a failure on standard output. -/
def failureJson (failure : Failure) (report : Option Report) : Json :=
  .obj [("status", .str "error"), ("errors", Tools.texts (failure.errors.map BuildError.message)),
    ("report", match report with
      | some r => r.toJson
      | none => .null)]

/-- The answer to a successful build on standard output. -/
def successJson (report : Report) : Json :=
  .obj [("status", .str "success"), ("report", report.toJson)]

/-- How a run ends that fails. -/
def failed (request : Request) (detailed : Bool) (failure : Failure) (report : Option Report)
    (tree : FileTree) (log : List LogLine) : Answer :=
  match failure with
  | .breakdown cause => ⟨.error cause, none, false, tree, log, detailed⟩
  | _ =>
    ⟨.ok 1, if request.json then some (failureJson failure report) else none, false, tree,
      log ++ failureLines failure, detailed⟩

/-- The watcher of a request. -/
def Request.watcher (request : Request) (tree : FileTree) (pipeline : Pipeline) : Watcher :=
  Watcher.new pipeline request.options [] (request.origin.sourceFile? tree)
    (some request.origin)

/-- Serves a request.  A watch that is asked for is stopped at once. -/
def serve (request : Request) (detailed : Bool) (tree : FileTree) : Answer :=
  match request.origin.load tree with
  | .error failure => failed request detailed failure none tree []
  | .ok config =>
    let pipeline := Pipeline.new config .empty detailed
    if request.watch then
      let answer := (request.watcher tree pipeline).runUntilStopped tree []
      match answer.result with
      | .ok () => ⟨.ok 0, none, false, answer.tree, answer.log, detailed⟩
      | .error cause => ⟨.error cause, none, false, answer.tree, answer.log, detailed⟩
    else
      let answer := pipeline.run tree request.options
      match answer.result with
      | .error failure =>
        failed request detailed failure answer.pipeline.lastReport answer.tree answer.log
      | .ok report =>
        ⟨.ok 0, if request.json then some (successJson report) else none, false, answer.tree,
          answer.log, detailed⟩

/-- Runs the command.  Once a run has been verbose, later ones tell their details too. -/
def run (detailed : Bool) (tree : FileTree) (arguments : List String) : Answer :=
  match parse arguments with
  | .help => ⟨.ok 0, none, true, tree, [], detailed⟩
  | .usage => ⟨.ok 2, none, true, tree, [], detailed⟩
  | .request request => serve request (detailed || request.verbose) tree

end DesignTokens.Cli
