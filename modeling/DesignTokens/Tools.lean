import DesignTokens.Build.Pipeline
/-!
# Tools

The calls by which another program drives a pipeline.  Every call is answered by a JSON object with
a status; a failure is an answer too.  Arguments arrive as JSON values of any kind.
-/

set_option autoImplicit false

namespace DesignTokens

/-- A call of a tool with its arguments. -/
inductive ToolCall where
  | build (modes dryRun : Json)
  | validate
  | resolve (path mode : Json)
  | listModes
  | listLayers
  deriving Repr, Inhabited

namespace Tools

/-- The answer to a call, with the pipeline and the tree afterwards and what the log tells. -/
structure Answer where
  json : Json
  pipeline : Pipeline
  tree : FileTree
  log : List LogLine

/-- Whether an argument counts as not given: null, false, zero, or empty. -/
def isAbsent : Json → Bool
  | .null => true
  | .bool b => !b
  | .int n => n == 0
  | .float x => x.toInt? == some 0
  | .str s => s == ""
  | .arr items => items.isEmpty
  | .obj fields => fields.isEmpty

/-- A list of texts in JSON. -/
def texts (xs : List String) : Json :=
  .arr (xs.map .str)

/-- An answer that says what went wrong, and of what kind it was if it is a finding. -/
def plainFailure (kind : Option String) (message : String) : Json :=
  .obj ([("status", .str "error")] ++ (kind.map fun k => ("error_type", .str k)).toList ++
    [("message", .str message)])

/-- The name of the kind of a failure, unless it is a breakdown. -/
def failureKind? : Failure → Option String
  | .error e => some e.kindName
  | .collected _ => some "TokenBuildFailed"
  | .breakdown _ => none

/-- The answer to a build that failed with errors. -/
def buildFailure (kind : String) (messages : List String) (report : Option Report) : Json :=
  let message := match messages with
    | [only] => only
    | _ => s!"{messages.length} errors"
  .obj ([("status", .str "error"), ("error_type", .str kind), ("message", .str message),
    ("errors", texts messages)] ++ (report.map fun r => ("report", r.toJson)).toList)

/-- Builds the style sheets. -/
def build (pipeline : Pipeline) (tree : FileTree) (modes dryRun : Json) : Answer :=
  let asked := if isAbsent modes then .null else modes
  let fields := Datum.Pairs.ofFields [("dry_run", .ofJson dryRun), ("modes", .ofJson asked)]
  match BuildOptions.ofFields fields with
  | .error _ =>
    ⟨plainFailure none "invalid options", pipeline, tree, [.error "Failed to build tokens"]⟩
  | .ok options =>
    let answer := pipeline.run tree options
    match answer.result with
    | .ok report =>
      let message := s!"{report.totalVariables} variables, " ++
        s!"{report.filesWritten.length} file(s) written"
      ⟨.obj [("status", .str "success"), ("report", report.toJson), ("message", .str message)],
        answer.pipeline, answer.tree, answer.log⟩
    | .error failure =>
      match failureKind? failure with
      | some kind =>
        ⟨buildFailure kind (failure.errors.map BuildError.message) answer.pipeline.lastReport,
          answer.pipeline, answer.tree, answer.log⟩
      | none =>
        ⟨plainFailure none failure.message, answer.pipeline, answer.tree,
          answer.log ++ [.error "Failed to build tokens"]⟩

/-- Checks every layer, reference and identifier without writing. -/
def validate (pipeline : Pipeline) (tree : FileTree) : Answer :=
  let answer := pipeline.run tree { BuildOptions.plain with dryRun := true }
  match answer.result with
  | .ok report =>
    ⟨.obj [("status", .str "success"), ("valid", .bool true), ("errors", .arr []),
        ("files_planned", texts report.filesPlanned),
        ("total_variables", .int report.totalVariables)],
      answer.pipeline, answer.tree, answer.log⟩
  | .error (.breakdown cause) =>
    ⟨plainFailure none cause.message, answer.pipeline, answer.tree,
      answer.log ++ [.error "Failed to validate tokens"]⟩
  | .error failure =>
    let errors := failure.errors.map fun e =>
      Json.obj [("type", .str e.kindName), ("message", .str e.message)]
    ⟨.obj [("status", .str "success"), ("valid", .bool false), ("errors", .arr errors)],
      answer.pipeline, answer.tree, answer.log⟩

/-- An argument as a message writes it: a text is written as it is. -/
def argumentText : Json → String
  | .str s => s
  | given => given.shown

/-- The literal of a token whose path and mode are given as JSON values. -/
def resolveGiven (pipeline : Pipeline) (tree : FileTree) (path mode : Json) :
    Pipeline.Answer (Option Scalar) :=
  match mode, path with
  | .str m, .str dotted =>
    let answer := pipeline.resolveToken tree dotted m
    ⟨answer.result.map some, answer.pipeline, answer.tree, answer.log⟩
  | .str m, _ =>
    let answer := pipeline.composeMode tree m
    ⟨answer.result.map fun _ => none, answer.pipeline, answer.tree, answer.log⟩
  | _, _ =>
    ⟨.error (.error (.config (.unknownMode (argumentText mode) pipeline.config.modes))),
      pipeline, tree, []⟩

/-- Resolves one token to its literal, in the default mode unless another is given. -/
def resolve (pipeline : Pipeline) (tree : FileTree) (path mode : Json) : Answer :=
  let chosen := if isAbsent mode then .str pipeline.config.defaultMode else mode
  let answer := resolveGiven pipeline tree path chosen
  match answer.result with
  | .ok (some value) =>
    ⟨.obj [("status", .str "success"), ("path", path), ("mode", chosen), ("value", value.toJson)],
      answer.pipeline, answer.tree, answer.log⟩
  | .ok none =>
    ⟨plainFailure none "a path is no text", answer.pipeline, answer.tree,
      answer.log ++ [.error "Failed to resolve token"]⟩
  | .error failure =>
    let told := if (failureKind? failure).isSome then [] else [.error "Failed to resolve token"]
    ⟨plainFailure (failureKind? failure) failure.message, answer.pipeline, answer.tree,
      answer.log ++ told⟩

/-- Lists the modes in emission order. -/
def listModes (pipeline : Pipeline) : Json :=
  let config := pipeline.config
  .obj [("status", .str "success"), ("default_mode", .str config.defaultMode),
    ("modes", .arr (config.orderedModes.map fun mode =>
      .obj [("name", .str mode), ("selector", .str (Css.modeSelector config.defaultMode mode))]))]

/-- The JSON form of a layer in a listing of the cascade. -/
def layerJson (line : Pipeline.LayerLine) : Json :=
  .obj [("name", .str line.source.name), ("source", .str line.source.identifier),
    ("mode", match line.source.mode with
      | some mode => .str mode
      | none => .null),
    ("group", .str line.source.group), ("emit", .bool line.source.emit),
    ("priority", .int line.priority)]

/-- Lists the layers in cascade order, lowest priority first. -/
def listLayers (pipeline : Pipeline) : Json :=
  let lines := pipeline.describeLayers
  .obj [("status", .str "success"), ("count", .int lines.length),
    ("layers", .arr (lines.map layerJson))]

/-- Answers a call. -/
def answer (pipeline : Pipeline) (tree : FileTree) : ToolCall → Answer
  | .build modes dryRun => build pipeline tree modes dryRun
  | .validate => validate pipeline tree
  | .resolve path mode => resolve pipeline tree path mode
  | .listModes => ⟨listModes pipeline, pipeline, tree, []⟩
  | .listLayers => ⟨listLayers pipeline, pipeline, tree, []⟩

end Tools

end DesignTokens
