import DesignTokens.Config.Field
/-!
# Settings of a build

Which layers there are, in cascade order, for which modes and into which groups, and where documents
and style sheets lie.  Settings are validated as a whole: every field problem is reported, and the
rules that concern several fields are checked once all fields are sound.
-/

set_option autoImplicit false

namespace DesignTokens

/-- Where a layer comes from and where it stands in the cascade.  Its document is given inline or
by a path below the data directory. -/
structure LayerSource where
  name : String
  source : Option String
  data : Option Datum.Pairs
  mode : Option String
  group : String
  emit : Bool
  skippable : Bool
  deriving Repr, Inhabited

namespace LayerSource

/-- The document path of a layer that is backed by one; an empty path backs nothing. -/
def document? (layer : LayerSource) : Option String :=
  layer.source.filter (· ≠ "")

/-- What messages call the source of a layer. -/
def identifier (layer : LayerSource) : String :=
  layer.document?.getD s!"<inline:{layer.name}>"

/-- A layer needs a document path or inline data. -/
def requireOrigin (layer : LayerSource) : Checked LayerSource :=
  (Checked.require (.layerNeedsOrigin layer.name)
    (layer.source.isSome || layer.data.isSome)).map fun _ => layer

/-- A layer source from its fields. -/
def ofFields (fields : Datum.Pairs) : Checked LayerSource :=
  let build : Checked LayerSource :=
    (Checked.and (.ok LayerSource.mk) (Field.required fields "name" Field.nonEmptyText)
      |> (Checked.and · (Field.optional fields "source" none (Field.orNull Field.text)))
      |> (Checked.and · (Field.optional fields "data" none (Field.orNull Field.textMap)))
      |> (Checked.and · (Field.optional fields "mode" none (Field.orNull Field.text)))
      |> (Checked.and · (Field.optional fields "group" "tokens" Field.fileSafeText))
      |> (Checked.and · (Field.optional fields "emit" true Field.truth))
      |> (Checked.and · (Field.optional fields "optional" false Field.truth)))
  match build with
  | .ok layer => layer.requireOrigin
  | .error problems => .error problems

/-- A layer source from given data. -/
def ofDatum : Datum → Checked LayerSource
  | .map fields => ofFields fields
  | _ => Checked.problem .notModel

end LayerSource

/-- The settings of a build. -/
structure Config where
  theme : String
  dataDir : Path
  outputDir : Path
  modes : List String
  defaultMode : String
  layers : List LayerSource
  indexImports : List String
  minify : Bool
  deriving Repr, Inhabited

namespace Config

/-- The modes, the default mode first. -/
def orderedModes (config : Config) : List String :=
  config.defaultMode :: config.modes.filter (· ≠ config.defaultMode)

/-- The groups, in cascade order of first appearance. -/
def groups (config : Config) : List String :=
  (config.layers.map (·.group)).eraseDups

/-- The documents of all layers that are backed by one. -/
def sourcePaths (config : Config) : List Path :=
  config.layers.filterMap fun layer =>
    layer.document?.map fun source => config.dataDir.join (Path.ofString source)

/-! ## Validation -/

/-- The names that occur more than once, in order. -/
def repeatedNames (names : List String) : List String :=
  ((names.filter fun name => 1 < names.count name).eraseDups).mergeSort fun a b => !decide (b < a)

/-- Modes with distinct names that are not blank. -/
def modeList (given : Datum) : Checked (List String) :=
  match Field.nonEmptyTexts given with
  | .error problems => .error problems
  | .ok modes =>
    if modes.any Text.allBlank then Checked.problem (.rule .modeNameEmpty)
    else if modes.eraseDups.length ≠ modes.length then
      Checked.problem (.rule (.modeNamesRepeated modes))
    else .ok modes

/-- A list with at least one layer. -/
def layerList : Datum → Checked (List LayerSource)
  | .list [] => Checked.problem .listTooShort
  | .list items => Checked.each LayerSource.ofDatum 0 items
  | _ => Checked.problem .notList

/-- The settings as given, before the default mode is settled. -/
structure Draft where
  theme : String
  dataDir : Path
  outputDir : Path
  modes : List String
  defaultMode : Option String
  layers : List LayerSource
  indexImports : List String
  minify : Bool
  deriving Repr, Inhabited

/-- The first layer that is tagged with a mode outside the settings. -/
def Draft.unknownLayerMode? (draft : Draft) : Option Rule :=
  draft.layers.findSome? fun layer =>
    match layer.mode with
    | some mode => if draft.modes.contains mode then none else some (.layerModeUnknown layer.name mode)
    | none => none

/-- The first rule that sound fields break: the default mode must be a mode, layers must have
distinct names and known modes, and no group may take the file name of the index. -/
def Draft.brokenRule? (draft : Draft) : Option Rule :=
  let repeated := repeatedNames (draft.layers.map (·.name))
  match draft.defaultMode with
  | some mode =>
    if draft.modes.contains mode then rest repeated else some (.defaultModeUnknown mode draft.modes)
  | none => rest repeated
where
  /-- The rules after the one on the default mode. -/
  rest (repeated : List String) : Option Rule :=
    if repeated ≠ [] then some (.layerNamesRepeated repeated)
    else
      match draft.unknownLayerMode? with
      | some rule => some rule
      | none =>
        if (draft.layers.map (·.group)).contains "index" then some .indexGroupReserved else none

/-- The settings of a draft that keeps the rules; the first mode is the default one. -/
def Draft.settle (draft : Draft) : Checked Config :=
  match draft.brokenRule? with
  | some rule => Checked.problem (.rule rule)
  | none =>
    .ok
      { theme := draft.theme
        dataDir := draft.dataDir
        outputDir := draft.outputDir
        modes := draft.modes
        defaultMode := draft.defaultMode.getD (draft.modes.headD "")
        layers := draft.layers
        indexImports := draft.indexImports
        minify := draft.minify }

/-- The draft of a group of fields; `dataDir` and `outputDir` read the two directories. -/
def draftOf (fields : Datum.Pairs) (dataDir outputDir : Checked Path) : Checked Draft :=
  Checked.and (.ok Draft.mk) (Field.optional fields "theme" "theme" Field.fileSafeText)
    |> (Checked.and · dataDir)
    |> (Checked.and · outputDir)
    |> (Checked.and · (Field.required fields "modes" modeList))
    |> (Checked.and · (Field.optional fields "default_mode" none (Field.orNull Field.text)))
    |> (Checked.and · (Field.required fields "layers" layerList))
    |> (Checked.and · (Field.optional fields "index_imports" [] Field.texts))
    |> (Checked.and · (Field.optional fields "minify" false Field.truth))

/-- Settings from given data. -/
def ofDatum : Datum → Checked Config
  | .map fields =>
    match draftOf fields
        (Field.optional fields "data_dir" Path.here Field.path)
        (Field.optional fields "output_dir" (Path.ofString "css-vars") Field.path) with
    | .ok draft => draft.settle
    | .error problems => .error problems
  | _ => Checked.problem .notModel

/-- The settings with their directories seen from another one. -/
def anchoredAt (config : Config) (base : Path) : Config :=
  { config with
    dataDir := base.join config.dataDir
    outputDir := base.join config.outputDir }

end Config

/-- What a caller asks of a single build. -/
structure BuildOptions where
  dryRun : Bool
  verbose : Bool
  watch : Bool
  modes : Option (List String)
  outputDir : Option Path
  deriving DecidableEq, Repr, Inhabited

namespace BuildOptions

/-- A plain build of all modes. -/
def plain : BuildOptions :=
  ⟨false, false, false, none, none⟩

/-- Options from their fields. -/
def ofFields (fields : Datum.Pairs) : Checked BuildOptions :=
  Checked.and (.ok BuildOptions.mk) (Field.optional fields "dry_run" false Field.truth)
    |> (Checked.and · (Field.optional fields "verbose" false Field.truth))
    |> (Checked.and · (Field.optional fields "watch" false Field.truth))
    |> (Checked.and · (Field.optional fields "modes" none (Field.orNull Field.texts)))
    |> (Checked.and · (Field.optional fields "output_dir" none (Field.orNull Field.path)))

end BuildOptions

end DesignTokens
