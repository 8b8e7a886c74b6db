import DesignTokens.Proofs.Build.History
/-!
# A build after any history is a build from scratch

What a pipeline keeps between its builds is true of the files as they are now: a document is kept
under a time at which its path held it, and terminals under the fingerprint of a tree that they are
true of.  Every call keeps it that way, so that no build can be told from the first build of a new
pipeline.
-/

set_option autoImplicit false

namespace DesignTokens

/-- The layers that a store loads that has read nothing yet. -/
def Config.freshLayers (config : Config) (tree : FileTree) : List Layer :=
  (Store.load true tree (Store.new config.dataDir) config.layers).layers

/-- All documents load. -/
structure Config.Loads (config : Config) (tree : FileTree) : Prop where
  stopped : (Store.load true tree (Store.new config.dataDir) config.layers).stopped = none
  errors : (Store.load true tree (Store.new config.dataDir) config.layers).errors = []

theorem Config.loads_of_each {config : Config} {tree : FileTree}
    (h : ∀ source ∈ config.layers, ∃ layer?,
      ((Store.new config.dataDir).loadLayer tree source).1 = .ok layer?) : config.Loads tree := by
  have hnew : (Store.new config.dataDir).Faithful [tree] := Store.faithful_of_documents_eq_nil rfl
  obtain ⟨hstopped, herrors⟩ := hnew.load_of_each (FileTree.dated_singleton _ tree)
    List.mem_cons_self (Store.readsWithin_documentPaths config) h
  exact ⟨hstopped, herrors⟩

/-- The layers of documents that load are those of their sources. -/
theorem Config.Loads.freshLayers_eq {config : Config} {tree : FileTree} (h : config.Loads tree) :
    config.freshLayers tree =
      config.layers.filterMap (Store.freshLayer? config.dataDir tree) := by
  have hnew : (Store.new config.dataDir).Faithful [tree] := Store.faithful_of_documents_eq_nil rfl
  exact hnew.layers_load (FileTree.dated_singleton _ tree) List.mem_cons_self
    (Store.readsWithin_documentPaths config) h.stopped

/-- What the modes are composed to, in each of some file trees. -/
def Config.composedTrees (config : Config) (trees : List FileTree) : List TokenTree :=
  trees.flatMap fun tree => config.modes.map (Cascade.compose (config.freshLayers tree))

theorem Config.mem_composedTrees {config : Config} {trees : List FileTree} {composed : TokenTree} :
    composed ∈ config.composedTrees trees ↔ ∃ tree ∈ trees, ∃ mode ∈ config.modes,
      composed = Cascade.compose (config.freshLayers tree) mode := by
  unfold composedTrees
  simp only [List.mem_flatMap, List.mem_map, eq_comm]

namespace Pipeline

/-- What happened to the documents can be told from what is kept of them: no path has held two texts
under one time, and no tree that was composed before has the fingerprint of a different one that is
composed now. -/
structure Discernible (config : Config) (history : List (FileTree × Call)) (tree : FileTree) :
    Prop where
  dated : FileTree.Dated config.documentPaths (tree :: history.map (·.1))
  distinguished : ∀ mode ∈ config.modes, ResolutionCache.Distinguished
    (Cascade.compose (config.freshLayers tree) mode :: config.composedTrees (history.map (·.1)))

/-- Before the first call, there is nothing to be told. -/
theorem discernible_nil (config : Config) (tree : FileTree) : Discernible config [] tree :=
  ⟨FileTree.dated_singleton _ tree,
    fun mode _ => ResolutionCache.distinguished_singleton (Cascade.keyed_compose _ mode)⟩

/-- What a pipeline keeps is true: the documents of some file trees, and the terminals of some token
trees. -/
structure UpToDate (config : Config) (files : List FileTree) (trees : List TokenTree)
    (pipeline : Pipeline) : Prop where
  config_eq : pipeline.config = config
  dataDir_eq : pipeline.store.dataDir = config.dataDir
  documents : pipeline.store.Faithful files
  terminals : pipeline.cache.Sound trees

variable {config : Config} {detailed : Bool} {files : List FileTree} {trees : List TokenTree}
  {pipeline : Pipeline} {tree : FileTree}

theorem upToDate_new (config : Config) (detailed : Bool) (files : List FileTree)
    (trees : List TokenTree) : UpToDate config files trees (new config .empty detailed) :=
  ⟨rfl, rfl, Store.faithful_of_documents_eq_nil rfl, ResolutionCache.sound_empty trees⟩

/-- An up-to-date pipeline loads what a new store loads. -/
theorem UpToDate.load_alike (h : UpToDate config files trees pipeline)
    (hdated : FileTree.Dated config.documentPaths files) (htree : tree ∈ files) (collect : Bool) :
    Loading.Alike (Store.load collect tree pipeline.store config.layers)
      (Store.load collect tree (Store.new config.dataDir) config.layers) := by
  have hnew : (Store.new config.dataDir).Faithful files := Store.faithful_of_documents_eq_nil rfl
  refine h.documents.load_alike hnew h.dataDir_eq hdated htree ?_
  rw [h.dataDir_eq]
  exact Store.readsWithin_documentPaths config

/-- Whatever a call leaves of the documents is true of the files again. -/
theorem UpToDate.documents_step (h : UpToDate config files trees pipeline)
    (hdated : FileTree.Dated config.documentPaths files) (htree : tree ∈ files) {after : Pipeline}
    (hleaves : Leaves tree pipeline after) :
    after.store.dataDir = config.dataDir ∧ after.store.Faithful files := by
  have hreads : Store.ReadsWithin config.documentPaths pipeline.store.dataDir config.layers := by
    rw [h.dataDir_eq]
    exact Store.readsWithin_documentPaths config
  obtain hsame | hcleared | ⟨collect, hloaded⟩ := hleaves.store
  · rw [hsame]
    exact ⟨h.dataDir_eq, h.documents⟩
  · rw [hcleared]
    exact ⟨h.dataDir_eq, Store.faithful_of_documents_eq_nil rfl⟩
  · rw [hloaded, h.config_eq]
    refine ⟨?_, h.documents.load hdated htree hreads⟩
    rw [Store.dataDir_load, h.dataDir_eq]

/-- Whatever a call leaves is up to date again, if its files are among those in question and the
trees that they are composed to among those too. -/
theorem UpToDate.step (h : UpToDate config files trees pipeline)
    (hdated : FileTree.Dated config.documentPaths files)
    (hdistinguished : ResolutionCache.Distinguished trees) (htree : tree ∈ files)
    (hcomposed : ∀ mode ∈ config.modes, Cascade.compose (config.freshLayers tree) mode ∈ trees)
    {after : Pipeline} (hleaves : Leaves tree pipeline after) :
    UpToDate config files trees after := by
  -- The documents that are kept decide nothing, so what was resolved is composed from the files.
  have hterminals : after.cache.Sound trees := by
    refine h.terminals.resolvesOnly hdistinguished ?_ hleaves.cache
    rintro composed ⟨mode, hmode, rfl⟩
    rw [h.config_eq] at hmode ⊢
    rw [(h.load_alike hdated htree true).layers]
    exact hcomposed mode hmode
  have hdocuments := h.documents_step hdated htree hleaves
  exact ⟨hleaves.config.trans h.config_eq, hdocuments.1, hdocuments.2, hterminals⟩

/-- A pipeline stays up to date over a history of calls. -/
theorem UpToDate.after {history : List (FileTree × Call)} (hvalid : config.Valid)
    (hdated : FileTree.Dated config.documentPaths files)
    (hdistinguished : ResolutionCache.Distinguished trees)
    (hfiles : ∀ made ∈ history, made.1 ∈ files)
    (hcomposed : ∀ made ∈ history, ∀ mode ∈ config.modes,
      Cascade.compose (config.freshLayers made.1) mode ∈ trees)
    (h : UpToDate config files trees pipeline) :
    UpToDate config files trees (pipeline.after history) := by
  refine after_induction (UpToDate config files trees) ?_ ?_ h
  · intro before hbefore
    rwa [hbefore.config_eq]
  · intro made hmade before after hbefore hleaves
    exact hbefore.step hdated hdistinguished (hfiles made hmade) (hcomposed made hmade) hleaves

/-- After a discernible history, the documents that are kept are true of the files, and the
terminals of the trees that the files are composed to. -/
theorem upToDate_after {history : List (FileTree × Call)} (hvalid : config.Valid)
    (hdiscernible : Discernible config history tree) (detailed : Bool) {mode : String}
    (hmode : mode ∈ config.modes) :
    UpToDate config (tree :: history.map (·.1))
      (Cascade.compose (config.freshLayers tree) mode :: config.composedTrees (history.map (·.1)))
      ((new config .empty detailed).after history) := by
  refine UpToDate.after hvalid hdiscernible.dated (hdiscernible.distinguished mode hmode) ?_ ?_
    (upToDate_new ..)
  · intro made hmade
    exact List.mem_cons_of_mem _ (List.mem_map_of_mem hmade)
  · intro made hmade mode' hmode'
    refine List.mem_cons_of_mem _ (Config.mem_composedTrees.mpr ?_)
    exact ⟨made.1, List.mem_map_of_mem hmade, mode', hmode', rfl⟩

/-- Calls change neither the settings nor what is told. -/
theorem settings_after (hvalid : config.Valid) (detailed : Bool)
    (history : List (FileTree × Call)) :
    ((new config .empty detailed).after history).config = config ∧
      ((new config .empty detailed).after history).detailed = detailed := by
  refine after_induction (fun pipeline => pipeline.config = config ∧ pipeline.detailed = detailed)
    ?_ ?_ ⟨rfl, rfl⟩
  · rintro pipeline ⟨hconfig, _⟩
    rwa [hconfig]
  · rintro made _ before after ⟨hconfig, hdetailed⟩ hleaves
    exact ⟨hleaves.config.trans hconfig, hleaves.detailed.trans hdetailed⟩

/-- A pipeline with a discernible history plans what a new one plans. -/
theorem plan_after {history : List (FileTree × Call)} (hvalid : config.Valid)
    (hdiscernible : Discernible config history tree) (detailed : Bool) (refuses : Output.Refusals)
    (options : BuildOptions) :
    ((new config .empty detailed).after history).plan refuses tree options =
      (new config .empty detailed).plan refuses tree options := by
  have hcurrent {mode : String} (hmode : mode ∈ config.modes) :=
    upToDate_after hvalid hdiscernible detailed hmode
  have hload (collect : Bool) := (hcurrent hvalid.default_mem).load_alike hdiscernible.dated
    List.mem_cons_self collect
  obtain ⟨hconfig, hdetailed⟩ := settings_after hvalid detailed history
  unfold plan task
  rw [hconfig, hdetailed]
  refine Build.outcome_planning_congr hload fun modes hmodes => ?_
  have hsub := Build.sublist_of_selectModes hmodes
  refine ⟨Build.nodup_of_selectModes hvalid hmodes, ?_, Build.remembers_empty _ _⟩
  intro mode hmode
  have hknown : mode ∈ config.modes := hvalid.mem_orderedModes.mp (hsub.subset hmode)
  have hmemo := ((hcurrent hknown).terminals.startPass mode List.mem_cons_self).memo
  have hlayers : (Store.load true tree ((new config .empty detailed).after history).store
      config.layers).layers = config.freshLayers tree := (hload true).layers
  rw [← hlayers] at hmemo
  exact hmemo

end Pipeline

/-! ## The whole build -/

/-- What a successful build has planned, apart from what it reports. -/
def BuildResult.planned (result : BuildResult) : Build.Planned :=
  ⟨result.resolved, result.files⟩

/-- How a build ends depends on what it plans, and not on what came before. -/
theorem Build.stages_congr {task : Build.Task} {progress progress' : Build.Progress}
    (h : (planning task progress).outcome = (planning task progress').outcome) :
    (stages task progress).outcome = (stages task progress').outcome ∧
      (stages task progress).tree = (stages task progress').tree := by
  unfold stages
  simp only [h]
  split
  · unfold writing
    split
    · exact ⟨rfl, rfl⟩
    · simp only
      split <;> exact ⟨rfl, rfl⟩
  · exact ⟨rfl, rfl⟩

namespace Pipeline

theorem result_buildUnder (pipeline : Pipeline) (refuses : Output.Refusals) (tree : FileTree)
    (options : BuildOptions) :
    (pipeline.buildUnder refuses tree options).result.map BuildResult.planned =
      (Build.stages (pipeline.task refuses tree options) (pipeline.start options)).outcome := by
  unfold buildUnder
  simp only
  cases (Build.stages (pipeline.task refuses tree options) (pipeline.start options)).outcome <;> rfl

end Pipeline

/-! ## A document that is mended -/

/-- A text that is read as a value with the compact form of a given one is read as the given one. -/
theorem Json.read_eq_ok_of_render {text : String} {json : Json}
    (h : (Json.read .refuse text).toOption.map Json.render = some json.render) :
    Json.read .refuse text = .ok json := by
  cases hread : Json.read .refuse text with
  | error fault =>
    rw [hread] at h
    cases h
  | ok json' =>
    rw [hread] at h
    rw [Json.render_injective (Option.some.inj h)]

/-- A layer that is read from a document. -/
def LayerSource.base : LayerSource :=
  { name := "base", source := some "base.json", data := none
    mode := none, group := "tokens", emit := true, skippable := false }

/-- Settings with this layer alone. -/
def Config.oneDocument : Config :=
  { theme := "brand"
    dataDir := ⟨.root, ["tokens"]⟩
    outputDir := ⟨.root, ["out"]⟩
    modes := ["light"]
    defaultMode := "light"
    layers := [.base]
    indexImports := []
    minify := false }

theorem Config.valid_oneDocument : Config.oneDocument.Valid where
  modes_nodup := by decide
  modes_not_blank := by decide
  default_mem := by decide
  names_nodup := by decide
  origins := by
    intro layer hlayer
    left
    revert layer
    decide
  layer_modes := by decide
  index_free := by decide

/-- A tree in which the document has a text since a time. -/
def FileTree.withBase (text : String) (changed : Int) : FileTree :=
  { entries := [(["tokens"], .directory 0), (["tokens", "base.json"], .file text.toUTF8 changed)]
    workingDirectory := []
    clock := changed + 1 }

/-- The text that a tree has for the document is read from it. -/
theorem FileTree.readText_withBase {text : String} (changed : Int)
    (htext : FileTree.decodeText text.toUTF8 = some text) :
    (FileTree.withBase text changed).readText ⟨.root, ["tokens", "base.json"]⟩ = .ok text := by
  have hbytes : (FileTree.withBase text changed).readBytes ⟨.root, ["tokens", "base.json"]⟩ =
      .ok text.toUTF8 := rfl
  unfold FileTree.readText
  rw [hbytes]
  simp only [htext]

/-- The document is loaded from the text that the tree has for it. -/
theorem Config.loadLayer_oneDocument {text : String} (changed : Int) (document : Json)
    {layer : Layer} (htext : FileTree.decodeText text.toUTF8 = some text)
    (hread : (Json.read .refuse text).toOption.map Json.render = some document.render)
    (hlayer : Store.layerOf .base (.ofJson document) = .ok layer) :
    ((Store.new Config.oneDocument.dataDir).loadLayer (.withBase text changed) .base).1 =
      .ok (some layer) := by
  have hbytes : (FileTree.withBase text changed).readBytes ⟨.root, ["tokens", "base.json"]⟩ =
      .ok text.toUTF8 := rfl
  have hpath : LayerSource.documentPath? oneDocument.dataDir .base =
      some ⟨.root, ["tokens", "base.json"]⟩ := rfl
  exact Store.loadLayer_new_of_document
    (FileTree.holdsDocument_of_bytes hbytes htext (Json.read_eq_ok_of_render hread)) hpath hlayer

/-- Settings with one layer load if it does. -/
theorem Config.loads_oneDocument {tree : FileTree} {layer : Layer}
    (h : ((Store.new Config.oneDocument.dataDir).loadLayer tree .base).1 = .ok (some layer)) :
    Config.oneDocument.Loads tree := by
  refine loads_of_each fun source hsource => ?_
  rw [List.mem_singleton.mp hsource]
  exact ⟨_, h⟩

/-- The layer of the document is made of the text that the tree has for it. -/
theorem Config.freshLayers_oneDocument {text : String} (changed : Int) (document : Json)
    {layer : Layer} (htext : FileTree.decodeText text.toUTF8 = some text)
    (hread : (Json.read .refuse text).toOption.map Json.render = some document.render)
    (hlayer : Store.layerOf .base (.ofJson document) = .ok layer) :
    Config.oneDocument.freshLayers (.withBase text changed) = [layer] := by
  have hloaded := Config.loadLayer_oneDocument changed document htext hread hlayer
  rw [(Config.loads_oneDocument hloaded).freshLayers_eq]
  exact List.filterMap_cons_some (Store.freshLayer?_of_loadLayer hloaded)

/-- A document with a reference to a token that it lacks. -/
def danglingText : String :=
  "\x7b\"a\": \x7b\"value\": \"\x7bb\x7d\"\x7d\x7d"

/-- The same document with the missing token. -/
def mendedText : String :=
  "\x7b\"a\": \x7b\"value\": \"\x7bb\x7d\"\x7d, " ++
    "\"b\": \x7b\"value\": \"red\", \"type\": \"color\"\x7d\x7d"

theorem Config.compose_danglingText (changed : Int) :
    Cascade.compose (Config.oneDocument.freshLayers (.withBase danglingText changed)) "light" =
      ResolutionCache.danglingTree := by
  rw [Config.freshLayers_oneDocument changed (.obj [("a", .obj [("value", .str "\x7bb\x7d")])])
    (by decide +kernel) (by decide +kernel) rfl]
  rfl

theorem Config.compose_mendedText (changed : Int) :
    Cascade.compose (Config.oneDocument.freshLayers (.withBase mendedText changed)) "light" =
      ResolutionCache.mendedTree := by
  rw [Config.freshLayers_oneDocument changed
    (.obj [("a", .obj [("value", .str "\x7bb\x7d")]),
      ("b", .obj [("value", .str "red"), ("type", .str "color")])])
    (by decide +kernel) (by decide +kernel) rfl]
  rfl

/-- A build goes through; then the document loses a token, which fails a build and a look-up. -/
def Pipeline.danglingHistory : List (FileTree × Call) :=
  [(.withBase mendedText 1, .build Output.noRefusals .plain),
    (.withBase danglingText 2, .build Output.noRefusals .plain),
    (.withBase danglingText 2, .resolveToken "a" "light")]

end DesignTokens
