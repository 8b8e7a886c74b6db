import DesignTokens.Decimal.Parse
import DesignTokens.FileTree.Path
/-!
# Arguments of the command line

Options are written in full or as any beginning that fits one option alone.  The value of an option
follows it, or stands after an equals sign.  There are no other arguments.
-/

set_option autoImplicit false

namespace DesignTokens.Cli

/-- What the command line asks for. -/
structure Request where
  config : Option Path
  dataDir : Option Path
  outputDir : Option Path
  modes : Option (List String)
  dryRun : Bool
  verbose : Bool
  watch : Bool
  pollInterval : Option Binary64
  json : Bool
  deriving DecidableEq, Repr, Inhabited

/-- A request that asks for nothing in particular. -/
def Request.plain : Request :=
  ⟨none, none, none, none, false, false, false, none, false⟩

/-- The pause between two looks at the sources, in milliseconds: half a second unless told
otherwise. -/
def Request.pollMilliseconds (request : Request) : Nat :=
  match request.pollInterval with
  | none => 500
  | some interval =>
    if interval.isNegative || !interval.isFinite then 0
    else
      let (seconds, parts) := interval.absFraction
      1000 * seconds / parts

/-- The options. -/
inductive Flag where
  | help
  | config
  | dataDir
  | outputDir
  | mode
  | dryRun
  | verbose
  | watch
  | pollInterval
  | json
  deriving DecidableEq, Repr, Inhabited

/-- The options by name. -/
def flags : List (String × Flag) :=
  [("-h", .help), ("--help", .help), ("--config", .config), ("--data-dir", .dataDir),
    ("--output-dir", .outputDir), ("--mode", .mode), ("--dry-run", .dryRun),
    ("--verbose", .verbose), ("--watch", .watch), ("--poll-interval", .pollInterval),
    ("--json", .json)]

/-- Whether an option takes a value. -/
def Flag.takesValue : Flag → Bool
  | .config | .dataDir | .outputDir | .mode | .pollInterval => true
  | .help | .dryRun | .verbose | .watch | .json => false

/-- What one argument is: an option with the value that stands after its equals sign, something
that no option fits or more than one, or a plain value. -/
inductive Argument where
  | option (flag : Flag) (value : Option String)
  | unknown
  | ambiguous
  | value (text : String)
  deriving DecidableEq, Repr, Inhabited

/-- A text without the line feed at its end, if there is one. -/
def withoutLineEnd (cs : List Char) : List Char :=
  if cs.getLast? = some '\n' then cs.dropLast else cs

/-- Whether a text is a negative number, which is never an option.  A line feed may end it. -/
def isNegativeNumber (cs : List Char) : Bool :=
  match withoutLineEnd cs with
  | '-' :: rest =>
    let whole := rest.takeWhile Text.isDigit
    match rest.dropWhile Text.isDigit with
    | [] => !whole.isEmpty
    | '.' :: fraction => !fraction.isEmpty && fraction.all Text.isDigit
    | _ => false
  | _ => false

/-- A text cut at its first equals sign. -/
def splitEquals (cs : List Char) : List Char × Option String :=
  match cs.dropWhile (· != '=') with
  | [] => (cs, none)
  | _ :: value => (cs.takeWhile (· != '='), some (String.ofList value))

/-- The option of a full name. -/
def flagNamed? (name : List Char) : Option Flag :=
  (flags.find? fun pair => pair.1.toList == name).map (·.2)

/-- The options that a text may be short for, each with the value it carries. -/
def candidates (cs : List Char) : List (Flag × Option String) :=
  match cs with
  | '-' :: '-' :: _ =>
    let (name, value) := splitEquals cs
    (flags.filter fun pair => name.isPrefixOf pair.1.toList).map fun pair => (pair.2, value)
  | _ =>
    let value := String.ofList (cs.drop 2)
    (flags.filter fun pair => pair.1.toList == cs.take 2).map fun pair => (pair.2, some value)

/-- What an argument is, taken alone. -/
def classify (text : String) : Argument :=
  let cs := text.toList
  match cs with
  | '-' :: _ :: _ =>
    match flagNamed? cs with
    | some flag => .option flag none
    | none =>
      let (name, value) := splitEquals cs
      match flagNamed? name, value with
      | some flag, some v => .option flag (some v)
      | _, _ =>
        match candidates cs with
        | [(flag, v)] => .option flag v
        | _ :: _ => .ambiguous
        | [] => if isNegativeNumber cs || cs.contains ' ' then .value text else .unknown
  | _ => .value text

/-- Whether an argument is the short option for help written several times over, as in `-hh`. -/
def isHelpCluster (text : String) : Bool :=
  match text.toList with
  | '-' :: 'h' :: '=' :: 'h' :: more => more.all (· == 'h')
  | '-' :: 'h' :: more => more.all (· == 'h')
  | _ => false

/-- What a list of arguments means. -/
inductive Parsed where
  | request (request : Request)
  | help
  | usage
  deriving DecidableEq, Repr, Inhabited

/-- The request with the value of an option, if the value fits. -/
def withValue (request : Request) (flag : Flag) (value : String) : Option Request :=
  match flag with
  | .config => some { request with config := some (Path.ofString value) }
  | .dataDir => some { request with dataDir := some (Path.ofString value) }
  | .outputDir => some { request with outputDir := some (Path.ofString value) }
  | .mode => some { request with modes := some (request.modes.getD [] ++ [value]) }
  | .pollInterval =>
    (Decimal.parse? value).map fun interval => { request with pollInterval := some interval }
  | .help | .dryRun | .verbose | .watch | .json => none

/-- The request with an option that has no value. -/
def withFlag (request : Request) (flag : Flag) : Request :=
  match flag with
  | .dryRun => { request with dryRun := true }
  | .verbose => { request with verbose := true }
  | .watch => { request with watch := true }
  | .json => { request with json := true }
  | .help | .config | .dataDir | .outputDir | .mode | .pollInterval => request

/-- Reads arguments into a request.  Arguments that nobody takes make the whole list wrong, but only
once all of it has been read: a call for help before its end is heard. -/
def parseInto (request : Request) (leftOver : Bool) : List String → Parsed
  | [] => if leftOver then .usage else .request request
  | text :: rest =>
    if text = "--" then .usage
    else
      match classify text with
      | .ambiguous => .usage
      | .unknown | .value _ => parseInto request true rest
      | .option flag value =>
        if flag.takesValue then
          match value with
          | some v =>
            match withValue request flag v with
            | some next => parseInto next leftOver rest
            | none => .usage
          | none =>
            match rest with
            | [] => .usage
            | next :: others =>
              match if next = "--" then .unknown else classify next with
              | .value v =>
                match withValue request flag v with
                | some after => parseInto after leftOver others
                | none => .usage
              | _ => .usage
        else if flag = .help ∧ (value = none ∨ isHelpCluster text) then .help
        else if value.isSome then .usage
        else parseInto (withFlag request flag) leftOver rest

/-- Whether some argument may be short for more than one option.  What follows two hyphens alone is
not looked at. -/
def hasAmbiguous (arguments : List String) : Bool :=
  (arguments.takeWhile (· ≠ "--")).any fun text => classify text = .ambiguous

/-- Reads arguments.  One that may be short for several options makes the whole list wrong before
anything else is looked at. -/
def parse (arguments : List String) : Parsed :=
  if hasAmbiguous arguments then .usage else parseInto Request.plain false arguments

end DesignTokens.Cli
