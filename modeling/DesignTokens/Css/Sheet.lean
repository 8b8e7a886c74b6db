import DesignTokens.BuildError
import DesignTokens.Cascade
import DesignTokens.Config.Basic
import DesignTokens.Css.Rule
import DesignTokens.Resolution
/-!
# Style sheets

The files of a build.  Every group has a sheet with one rule block per mode; an index of the theme
imports the sheets, and an index at the root imports the theme.  Which sheet a path goes to, and
whether it goes to any, is decided by the layer that wins it in the default mode, so that every
block of a sheet declares the same properties.
-/

set_option autoImplicit false

namespace DesignTokens

/-- What an output file is. -/
inductive OutputKind where
  | group
  | index
  deriving DecidableEq, Repr, Inhabited

/-- The name of a kind. -/
def OutputKind.name : OutputKind → String
  | .group => "group"
  | .index => "index"

/-- An output file, by its path below the output directory. -/
structure OutputFile where
  path : String
  content : String
  kind : OutputKind
  deriving DecidableEq, Repr, Inhabited

namespace Css

/-- The resolved trees of the modes of a build. -/
abbrev ResolvedModes := ByMode ResolvedTree

/-- The settings of the last layer with a name. -/
def layerNamed? (config : Config) (name : String) : Option LayerSource :=
  config.layers.reverse.find? fun layer => layer.name == name

/-- Whether the tokens of a layer are emitted. -/
def isEmitted (config : Config) (layer : String) : Bool :=
  match layerNamed? config layer with
  | some source => source.emit
  | none => true

/-- The group of the tokens of a layer. -/
def groupOf (config : Config) (layer : String) : String :=
  match layerNamed? config layer with
  | some source => source.group
  | none => "tokens"

/-- The tree that decides placement: the default mode's, or the first one if that is empty or not
built. -/
def placementTree (config : Config) (trees : ResolvedModes) : ResolvedTree :=
  match OrderedMap.get? trees config.defaultMode with
  | some (entry :: rest) => entry :: rest
  | _ =>
    match trees with
    | (_, tree) :: _ => tree
    | [] => []

/-- Adds a path to the members of its group. -/
def place (config : Config) (groups : OrderedMap String (List TokenPath))
    (entry : TokenPath × ResolvedToken) : OrderedMap String (List TokenPath) :=
  if isEmitted config entry.2.layer then
    let group := groupOf config entry.2.layer
    OrderedMap.set groups group ((OrderedMap.get? groups group).getD [] ++ [entry.1])
  else
    groups

/-- The emitted paths of every group that has any, in cascade order. -/
def emittedPaths (config : Config) (trees : ResolvedModes) : OrderedMap String (List TokenPath) :=
  let empty := OrderedMap.ofPairs (config.groups.map fun group => (group, []))
  ((placementTree config trees).foldl (place config) empty).filter fun group => !group.2.isEmpty

/-- The built modes, the default mode first. -/
def builtModes (config : Config) (trees : ResolvedModes) : List String :=
  config.orderedModes.filter fun mode => OrderedMap.has trees mode

/-- The number of declarations per mode. -/
def modeCounts (config : Config) (trees : ResolvedModes) : OrderedMap String Nat :=
  let sizes := (emittedPaths config trees).map fun group => group.2.length
  let total := sizes.foldr (· + ·) 0
  OrderedMap.ofPairs ((builtModes config trees).map fun mode => (mode, total))

/-- The declaration of a path in a mode, if the mode has the path and the path an identifier. -/
def declaration? (identifiers : OrderedMap TokenPath String) (tree : ResolvedTree)
    (path : TokenPath) : Option Declaration := do
  let name ← OrderedMap.get? identifiers path
  let token ← OrderedMap.get? tree path
  return ⟨name, renderValue token.value token.type⟩

/-- The rule block of a mode. -/
def modeBlock (config : Config) (mode : String) (declarations : List Declaration) : String :=
  rule config.minify (modeSelector config.defaultMode mode) declarations

/-- The rule block of a mode, if all its paths have declarations there. -/
def block? (config : Config) (identifiers : OrderedMap TokenPath String) (paths : List TokenPath)
    (mode : String) (tree : ResolvedTree) : Option String :=
  (paths.mapM (declaration? identifiers tree)).map (modeBlock config mode)

/-- A group's name with a capital. -/
def capitalize (s : String) : String :=
  match s.toList with
  | [] => ""
  | c :: rest => String.ofList (c.toUpper :: rest.map Char.toLower)

/-- The file name of a group's sheet. -/
def sheetName (group : String) : String :=
  group ++ ".css"

/-- A group's sheet, by what its head tells of the modes and of the number of variables, and by its
rule blocks. -/
def sheetWith (config : Config) (group modes count : String) (blocks : List String) :
    OutputFile :=
  { path := config.theme ++ "/" ++ sheetName group
    content :=
      header (sheetName group) (capitalize group ++ " tokens for all modes")
        [("theme", config.theme), ("modes", modes), ("group", group), ("variables", count)] ++
      "\n\n".intercalate blocks ++ "\n"
    kind := .group }

/-- The sheet of a group, if all its paths have declarations in every mode. -/
def sheet? (config : Config) (trees : ResolvedModes) (identifiers : OrderedMap TokenPath String)
    (group : String) (paths : List TokenPath) : Option OutputFile := do
  let modes := builtModes config trees
  let blocks ← modes.mapM fun mode =>
    block? config identifiers paths mode ((OrderedMap.get? trees mode).getD [])
  return sheetWith config group (", ".intercalate modes) (toString (paths.length * modes.length))
    blocks

/-- An import of a style sheet. -/
def importLine (target : String) : String :=
  "@import '" ++ target ++ "';\n"

/-- The file name of an index. -/
def indexName : String := "index.css"

/-- The index of the theme and the index at the root. -/
def indexFiles (config : Config) (sheetNames : List String) : List OutputFile :=
  let themeIndex := config.theme ++ "/" ++ indexName
  [{ path := themeIndex
     content := header themeIndex "Auto-generated theme imports" [] ++
       "".intercalate (sheetNames.map fun name => importLine ("./" ++ name))
     kind := .index },
   { path := indexName
     content := header indexName "Auto-generated design tokens" [] ++
       "".intercalate (config.indexImports.map importLine) ++ importLine ("./" ++ themeIndex)
     kind := .index }]

/-- All files of a build: the sheets in cascade order, then the indexes.  A path without an
identifier, or one that a mode lacks, has no sheet to go to. -/
def files (config : Config) (trees : ResolvedModes) (identifiers : OrderedMap TokenPath String) :
    Except Failure (List OutputFile) :=
  let groups := emittedPaths config trees
  match groups.mapM fun group => sheet? config trees identifiers group.1 group.2 with
  | none => .error (.breakdown .missingEntry)
  | some sheets =>
    .ok (sheets ++ indexFiles config (groups.map fun group => sheetName group.1))

end Css

end DesignTokens
