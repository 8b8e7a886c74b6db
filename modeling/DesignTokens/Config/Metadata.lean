import DesignTokens.BuildError
import DesignTokens.Config.Basic
/-!
# Settings from metadata

A data directory may hold a `$metadata.json` that lists its token sets in cascade order.  The folder
of a set decides what its layer is for: sets below `color-modes/` are the modes, brand themes feed
resolution only, components and layouts are emitted, and any other folder is a group of its own.
-/

set_option autoImplicit false

namespace DesignTokens.Metadata

/-- The name of the metadata file. -/
def fileName : String := "$metadata.json"

/-- What the folder of a token set makes of it. -/
inductive Role where
  | brandTheme
  | colorMode
  | component
  | layout
  | other
  deriving DecidableEq, Repr, Inhabited

/-- The folders with a role, and the role. -/
def folders : List (String × Role) :=
  [("brand-theme/", .brandTheme), ("color-modes/", .colorMode), ("components/", .component),
    ("layouts/", .layout)]

/-- The role of a token set. -/
def roleOf (set : String) : Role :=
  match folders.find? fun folder => folder.1.toList.isPrefixOf set.toList with
  | some (_, role) => role
  | none => .other

/-- The part of a set's name before its first slash. -/
def folderOf (set : String) : String :=
  String.ofList (set.toList.takeWhile (· != '/'))

/-- The part of a set's name after its first slash. -/
def remainderOf (set : String) : String :=
  String.ofList ((set.toList.dropWhile (· != '/')).drop 1)

/-- The settings of the layer of a token set. -/
def layerFields (set : String) : Datum.Pairs :=
  let origin : List (String × Datum) := [("name", .str set), ("source", .str (set ++ ".json"))]
  Datum.Pairs.ofFields <| origin ++
    match roleOf set with
    | .colorMode =>
      [("mode", .str (remainderOf set)), ("group", .str "theme"), ("emit", .bool false)]
    | .brandTheme => [("group", .str "theme"), ("emit", .bool false)]
    | .component => [("group", .str "component")]
    | .layout => [("group", .str "layout")]
    | .other => [("group", .str (folderOf set))]

/-- The modes that a list of token sets names. -/
def modesOf (sets : List String) : List String :=
  (sets.filter fun set => roleOf set == .colorMode).map remainderOf

/-- The theme: the given one, else the first brand theme with a name, else a plain word. -/
def themeOf (given : Option String) (sets : List String) : String :=
  let brands := (sets.filter fun set => roleOf set == .brandTheme).map remainderOf
  ((given.toList ++ brands).find? (· ≠ "")).getD "theme"

/-- The token sets of a metadata document. -/
def tokenSets (document : Json) : Except Failure (List String) :=
  let order := match document with
    | .obj fields => OrderedMap.get? fields "tokenSetOrder"
    | _ => none
  match order with
  | some (.arr (first :: rest)) =>
    (first :: rest).mapM fun
      | .str set => .ok set
      | _ => .error (.breakdown .setNameNotText)
  | _ => .error (.error (.config .metadataWithoutOrder))

/-- The settings that a list of token sets stands for. -/
def configOf (sets : List String) (dataDir outputDir : Path) (theme : Option String) :
    Except Failure Config :=
  if (modesOf sets).isEmpty then
    .error (.error (.config .metadataWithoutModes))
  else
    let fields := Datum.Pairs.ofFields
      [("theme", .str (themeOf theme sets)), ("modes", .list ((modesOf sets).map .str)),
        ("layers", .list (sets.map fun set => .map (layerFields set)))]
    match Config.draftOf fields (.ok dataDir) (.ok outputDir) with
    | .error problems => .error (.error (.config (.invalid problems)))
    | .ok draft =>
      match draft.settle with
      | .error problems => .error (.error (.config (.invalid problems)))
      | .ok config => .ok config

/-- The metadata document of a data directory. -/
def readDocument (tree : FileTree) (dataDir : Path) : Except Failure Json :=
  match tree.readText (dataDir.join (Path.ofString fileName)) with
  | .error (.file .noEntry) => .error (.error (.config (.metadataNotFound dataDir)))
  | .error (.file fault) => .error (.breakdown (.file fault))
  | .error .undecodable => .error (.breakdown .undecodable)
  | .ok text =>
    match Json.read .keepLast text with
    | .ok document => .ok document
    | .error (.malformed complaint place) =>
      .error (.error (.config (.metadataNotJson complaint place)))
    | .error _ => .error (.breakdown .integerTooLong)

/-- The settings of a data directory with metadata.  Style sheets go beside the directory unless
told otherwise. -/
def config (tree : FileTree) (dataDir : Path) (outputDir : Option Path) (theme : Option String) :
    Except Failure Config := do
  let document ← readDocument tree dataDir
  let sets ← tokenSets document
  configOf sets dataDir (outputDir.getD (dataDir.parent.join (Path.ofString "css-vars"))) theme

end DesignTokens.Metadata
