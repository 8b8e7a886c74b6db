import DesignTokens.Config.Problem
import DesignTokens.Datum
import DesignTokens.FileTree.Glob
import DesignTokens.Identifier
import DesignTokens.Json.Reader
import DesignTokens.Token.Basic
import DesignTokens.Yaml.Fault
/-!
# Errors of a build

Every way in which a build can fail, by cause, and the one wording of each.  A build that checks
everything before it stops fails with all the errors it found.  A breakdown is a failure that is no
finding about the tokens or the settings.
-/

set_option autoImplicit false

namespace DesignTokens

/-! ## Causes -/

/-- What is wrong with a token document. -/
inductive DocumentFault where
  | notFound
  | unreadable (fault : FileFault)
  | undecodable
  | malformedText (complaint : Json.Complaint)
  | repeatedKey (key : String)
  | rootNotObject
  | emptyKey
  | notTokenOrGroup (kind : String)
  | valueKind (kind : String)
  | valueNotFinite (value : Binary64)
  | delimiterInValue (literal : String)
  | unknownType (given : Datum)
  deriving Repr, Inhabited, BEq

/-- The wording of a document fault. -/
def DocumentFault.reason : DocumentFault → String
  | .notFound => "document not found"
  | .unreadable fault => s!"cannot read file: {fault.name}"
  | .undecodable => "cannot read file: UnicodeDecodeError"
  | .malformedText complaint => complaint.message
  | .repeatedKey key => s!"duplicate key '{key}'"
  | .rootNotObject => "document root must be an object"
  | .emptyKey => "empty key"
  | .notTokenOrGroup kind => s!"expected a token or group object, got {kind}"
  | .valueKind kind => s!"token value must be a string, number or boolean, got {kind}"
  | .valueNotFinite value =>
    s!"token value must be a finite number, got {Json.shownFloatLayout.render value}"
  | .delimiterInValue literal =>
    s!"literal value {Text.quoted literal} contains a CSS delimiter (; \x7b or \x7d)"
  | .unknownType given => s!"unknown token type {given.shown}"

/-- Whether a fault can be worded: what was given as a type is shown. -/
def DocumentFault.isShowable : DocumentFault → Bool
  | .unknownType given => given.isShowable
  | .notFound | .unreadable _ | .undecodable | .malformedText _ | .repeatedKey _ | .rootNotObject
  | .emptyKey | .notTokenOrGroup _ | .valueKind _ | .valueNotFinite _ | .delimiterInValue _ => true

/-- Where in a document a fault is. -/
inductive DocumentPlace where
  | unknown
  | inText (place : Json.Place)
  | atPath (path : TokenPath)
  deriving DecidableEq, Repr, Inhabited

/-- The wording of a place; the top of a document has no path to show. -/
def DocumentPlace.text? : DocumentPlace → Option String
  | .unknown => none
  | .inText place => some s!"line {place.line}, column {place.column}"
  | .atPath path => some (if path.dotted = "" then "<root>" else path.dotted)

/-- What is wrong with the settings of a build. -/
inductive ConfigFault where
  | invalid (problems : List Problem)
  | fileNotFound (path : Path)
  | notYaml (path : Path)
  | notMapping (path : Path)
  | metadataNotFound (directory : Path)
  | metadataNotJson (complaint : Json.Complaint) (place : Json.Place)
  | metadataWithoutOrder
  | metadataWithoutModes
  | nothingGiven
  | unknownMode (mode : String) (modes : List String)
  | layerWithoutOrigin (layer : String)
  deriving DecidableEq, Repr, Inhabited

/-- The wording of a config fault. -/
def ConfigFault.message : ConfigFault → String
  | .invalid _ => "Invalid token pipeline config"
  | .fileNotFound path => s!"Config file not found: {path}"
  | .notYaml path => s!"Config file is not valid YAML: {path}"
  | .notMapping path => s!"Config file must contain a mapping: {path}"
  | .metadataNotFound directory => s!"$metadata.json not found in {directory}"
  | .metadataNotJson complaint place =>
    s!"$metadata.json is not valid JSON: {complaint.message}: line {place.line} " ++
      s!"column {place.column} (char {place.offset})"
  | .metadataWithoutOrder => "$metadata.json has no tokenSetOrder"
  | .metadataWithoutModes => "$metadata.json lists no color-modes/ token sets"
  | .nothingGiven => "No tokens.yaml found; pass --config or --data-dir"
  | .unknownMode mode modes =>
    s!"Unknown mode '{mode}'. Configured modes: " ++ ", ".intercalate modes
  | .layerWithoutOrigin layer => s!"Layer '{layer}' has neither a source nor inline data"

/-- A chain of references that ends at a path without a token. -/
structure BrokenChain where
  mode : String
  referencing : TokenPath
  missing : TokenPath
  chain : List TokenPath
  deriving DecidableEq, Repr, Inhabited

/-- A chain of references that comes back to a path it has passed. -/
structure ReferenceCycle where
  mode : String
  cycle : List TokenPath
  deriving DecidableEq, Repr, Inhabited

/-- A path that some modes have and others lack. -/
structure CoverageGap where
  path : TokenPath
  presentIn : List String
  missingIn : List String
  deriving DecidableEq, Repr, Inhabited

/-! ## Build errors -/

/-- An error of a build. -/
inductive BuildError where
  | config (fault : ConfigFault)
  | document (source : String) (fault : DocumentFault) (place : DocumentPlace)
  | unresolved (broken : BrokenChain)
  | cyclic (cycle : ReferenceCycle)
  | collision (claims : Collision)
  | coverage (gap : CoverageGap)
  | output (directory : Path) (fault : FileFault)
  deriving Repr, Inhabited, BEq

/-- The wording of a build error. -/
def BuildError.message : BuildError → String
  | .config fault => fault.message
  | .document source fault place =>
    let location := match place.text? with
      | some text => " at " ++ text
      | none => ""
    s!"Malformed token document '{source}'{location}: {fault.reason}"
  | .unresolved broken =>
    let chain := if broken.chain.length > 2 then
      s!" (chain: {TokenPath.dottedChain broken.chain})" else ""
    s!"Unresolved reference in mode '{broken.mode}': '{broken.referencing.dotted}' points to " ++
      s!"missing token '{broken.missing.dotted}'{chain}"
  | .cyclic cycle =>
    s!"Circular reference in mode '{cycle.mode}': {TokenPath.dottedChain cycle.cycle}"
  | .collision claims =>
    s!"Identifier collision: '{claims.first.dotted}' and '{claims.second.dotted}' both " ++
      s!"sanitize to '{claims.identifier}'"
  | .coverage gap =>
    s!"Token '{gap.path.dotted}' is defined in mode(s) " ++ ", ".intercalate gap.presentIn ++
      " but missing in " ++ ", ".intercalate gap.missingIn
  | .output directory fault => s!"Could not write output to {directory}: {fault.name}"

/-- The name of an error's kind, as answers to other programs give it. -/
def BuildError.kindName : BuildError → String
  | .config _ => "ConfigError"
  | .document _ _ _ => "MalformedTokenDocument"
  | .unresolved _ => "UnresolvedTokenReference"
  | .cyclic _ => "CyclicTokenReference"
  | .collision _ => "IdentifierCollision"
  | .coverage _ => "ModeCoverageMismatch"
  | .output _ _ => "OutputWriteError"

/-- A failure that is no finding about tokens or settings. -/
inductive Breakdown where
  /-- A token set of the metadata is named by something that is no text. -/
  | setNameNotText
  /-- An integer has more digits than are read or written. -/
  | integerTooLong
  /-- A path or identifier that a style sheet needs is not there. -/
  | missingEntry
  /-- A name is no token type. -/
  | unknownTypeName
  /-- A key of a group is no text. -/
  | keyNotText
  /-- A value that would be a token's is of no kind that tokens have. -/
  | invalidToken (problems : List Problem)
  /-- A scalar of the settings has no value. -/
  | scalar (fault : Yaml.ScalarFault)
  /-- A text that should be a pattern of paths is none. -/
  | pattern (fault : Glob.Fault)
  /-- A file operation was refused. -/
  | file (fault : FileFault)
  /-- Bytes are no text. -/
  | undecodable
  deriving DecidableEq, Repr, Inhabited

/-- The wording of a breakdown. -/
def Breakdown.message : Breakdown → String
  | .setNameNotText => "a token set is named by something that is no text"
  | .integerTooLong => "an integer has too many digits"
  | .missingEntry => "a path or identifier is missing"
  | .unknownTypeName => "a name is no token type"
  | .keyNotText => "a key of a group is no text"
  | .invalidToken _ => "a value is of no kind that tokens have"
  | .scalar _ => "a scalar has no value"
  | .pattern _ => "a text is no pattern of paths"
  | .file fault => fault.name
  | .undecodable => "bytes are no text"

/-- How an operation fails: with one error, with all errors of a run that checks everything, or by
breaking down. -/
inductive Failure where
  | error (error : BuildError)
  | collected (errors : List BuildError)
  | breakdown (cause : Breakdown)
  deriving Repr, Inhabited

/-- The build errors that a failure stands for; a breakdown stands for none. -/
def Failure.errors : Failure → List BuildError
  | .error e => [e]
  | .collected es => es
  | .breakdown _ => []

/-- The wording of a failure. -/
def Failure.message : Failure → String
  | .error e => e.message
  | .collected es =>
    "\n".intercalate (s!"Token build failed with {es.length} error(s):" ::
      es.map fun e => "  - " ++ e.message)
  | .breakdown cause => cause.message

end DesignTokens
