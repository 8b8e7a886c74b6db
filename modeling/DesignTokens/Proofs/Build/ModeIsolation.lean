import DesignTokens.Proofs.Build.DryRun
import DesignTokens.Proofs.Build.Planned
/-!
# Modes do not leak into each other

Two states of the documents may differ in the layers of one mode.  If that is not the default mode
and both states can be built, the other modes cannot tell them apart: neither in their resolved
trees, nor in their rule blocks, nor in the files that there are.
-/

set_option autoImplicit false

namespace DesignTokens

/-! ## Layers of other modes -/

/-- Two file trees hold the same layers, except for those of one mode. -/
def Config.AlikeOutside (config : Config) (mode : String) (tree tree' : FileTree) : Prop :=
  ∀ source ∈ config.layers, source.mode ≠ some mode →
    Store.freshLayer? config.dataDir tree source = Store.freshLayer? config.dataDir tree' source

/-- It is enough that the trees hold the same documents for the other layers. -/
theorem Config.alikeOutside_of_documents {config : Config} {mode : String} {tree tree' : FileTree}
    (h : ∀ source ∈ config.layers, source.mode ≠ some mode →
      ∀ path ∈ source.documentPath? config.dataDir, FileTree.SameAt path tree tree') :
    config.AlikeOutside mode tree tree' :=
  fun source hsource hmode => Store.freshLayer?_congr (h source hsource hmode)

/-- The layer of one mode does not apply to another. -/
theorem Store.filter_freshLayer? (dataDir : Path) (tree : FileTree) {source : LayerSource}
    {own mode : String} (hown : source.mode = some own) (hmode : mode ≠ own) :
    (freshLayer? dataDir tree source).filter (·.appliesTo mode) = none := by
  rw [Option.filter_eq_none_iff]
  intro layer hlayer
  unfold freshLayer? at hlayer
  split at hlayer
  · rename_i loaded hloaded
    rw [hlayer] at hloaded
    unfold Layer.appliesTo
    rw [(loadLayer_comesFrom hloaded).mode, hown]
    simpa using hmode.symm
  · cases hlayer

/-- File trees that are alike outside a mode have the same layers in every other mode. -/
theorem Config.AlikeOutside.layersFor_eq {config : Config} {mode mode' : String}
    {tree tree' : FileTree} (h : config.AlikeOutside mode' tree tree') (hloads : config.Loads tree)
    (hloads' : config.Loads tree') (hmode : mode ≠ mode') :
    Cascade.layersFor (config.freshLayers tree) mode =
      Cascade.layersFor (config.freshLayers tree') mode := by
  unfold Cascade.layersFor
  rw [hloads.freshLayers_eq, hloads'.freshLayers_eq, List.filter_filterMap, List.filter_filterMap]
  refine List.filterMap_congr fun source hsource => ?_
  -- A layer of the mode that differs is dropped on both sides, any other is the same on both.
  by_cases hown : source.mode = some mode'
  · rw [Store.filter_freshLayer? _ _ hown hmode, Store.filter_freshLayer? _ _ hown hmode]
  · rw [h source hsource hown]

/-! ## The builds -/

/-- Two builds come to the same in all modes but one. -/
structure Build.AgreeOutside (config : Config) (mode : String) (first second : Planned) : Prop where
  /-- The other modes have the same resolved trees. -/
  trees : ∀ other, other ≠ mode →
    OrderedMap.get? first.resolved other = OrderedMap.get? second.resolved other
  /-- The same paths are placed in the same sheets. -/
  sheets : Css.emittedPaths config first.resolved = Css.emittedPaths config second.resolved
  /-- The files are these sheets, with one rule block per mode, and the indexes. -/
  firstFiles : first.files = Css.filesOf config config.orderedModes (declareIn first.resolved)
    (Css.emittedPaths config first.resolved)
  secondFiles : second.files = Css.filesOf config config.orderedModes (declareIn second.resolved)
    (Css.emittedPaths config second.resolved)
  /-- Every sheet has the same rule blocks for the other modes. -/
  blocks : ∀ sheet ∈ Css.emittedPaths config first.resolved, ∀ other, other ≠ mode →
    Css.blockOf config (declareIn first.resolved) sheet.2 other =
      Css.blockOf config (declareIn second.resolved) sheet.2 other
  paths : first.files.map (·.path) = second.files.map (·.path)
  indexes : first.files.filter (·.kind = .index) = second.files.filter (·.kind = .index)

/-- Layers that are the same in all modes but one, which is not the default mode, are planned
alike. -/
theorem Build.agreeOutside_planOf {config : Config} {mode : String} {layers layers' : List Layer}
    (hvalid : config.Valid) (hmode : mode ≠ config.defaultMode)
    (h : ∀ other, other ≠ mode →
      Cascade.layersFor layers other = Cascade.layersFor layers' other) :
    AgreeOutside config mode (planOf config layers config.orderedModes)
      (planOf config layers' config.orderedModes) := by
  have htrees : ∀ other, other ≠ mode →
      OrderedMap.get? (Cascade.resolvedTrees layers config.orderedModes) other =
        OrderedMap.get? (Cascade.resolvedTrees layers' config.orderedModes) other := by
    intro other hother
    rw [Cascade.get?_resolvedTrees _ hvalid.nodup_orderedModes,
      Cascade.get?_resolvedTrees _ hvalid.nodup_orderedModes,
      Cascade.resolution_congr (h other hother)]
  -- Placement is the default mode's, and this is not the mode that differs.
  have hsheets : Css.emittedPaths config (Cascade.resolvedTrees layers config.orderedModes) =
      Css.emittedPaths config (Cascade.resolvedTrees layers' config.orderedModes) := by
    have hall : selectModes config none = .ok config.orderedModes := rfl
    have hdefault := hvalid.mem_orderedModes.mpr hvalid.default_mem
    exact emittedPaths_resolvedTrees_congr hvalid hall hall hdefault hdefault
      (Cascade.resolution_congr (h _ hmode.symm))
  refine ⟨htrees, hsheets, rfl, rfl, ?_, ?_, ?_⟩
  · intro sheet _ other hother
    unfold planOf Css.blockOf
    simp only
    rw [declareIn_congr (htrees other hother)]
  · unfold planOf
    simp only
    rw [Css.paths_filesOf, Css.paths_filesOf, hsheets]
  · unfold planOf
    simp only
    rw [Css.indexes_filesOf, Css.indexes_filesOf, hsheets]

/-- Documents of a mode that is not the default one make no difference to the other modes: two
builds of all modes that both succeed, whatever the pipelines have done before, come to the same
trees and rule blocks of the other modes, and to the same files.  Of a new pipeline, which has no
history, nothing has to be known. -/
theorem Pipeline.builds_agree_outside_mode (config : Config) (mode : String)
    (detailed detailed' : Bool) (history history' : List (FileTree × Call))
    (refuses refuses' : Output.Refusals) (tree tree' : FileTree) (options options' : BuildOptions)
    (result result' : BuildResult) (hvalid : config.Valid) (hmode : mode ≠ config.defaultMode)
    (halike : config.AlikeOutside mode tree tree')
    (hdiscernible : Discernible config history tree)
    (hdiscernible' : Discernible config history' tree')
    (hunfiltered : options.modes.getD [] = []) (hunfiltered' : options'.modes.getD [] = [])
    (hresult : (((new config .empty detailed).after history).buildUnder refuses tree
      options).result = .ok result)
    (hresult' : (((new config .empty detailed').after history').buildUnder refuses' tree'
      options').result = .ok result') :
    Build.AgreeOutside config mode result.planned result'.planned := by
  obtain ⟨modes, hmodes, hloads, _, hplanned⟩ :=
    (plan_after_eq_ok_iff hvalid hdiscernible).mp (plan_of_buildUnder_eq_ok hresult)
  obtain ⟨modes', hmodes', hloads', _, hplanned'⟩ :=
    (plan_after_eq_ok_iff hvalid hdiscernible').mp (plan_of_buildUnder_eq_ok hresult')
  rw [Build.selectModes_unfiltered config hunfiltered, Except.ok.injEq] at hmodes
  rw [Build.selectModes_unfiltered config hunfiltered', Except.ok.injEq] at hmodes'
  subst hmodes hmodes'
  change Build.AgreeOutside config mode ⟨result.resolved, result.files⟩
    ⟨result'.resolved, result'.files⟩
  rw [hplanned, hplanned']
  refine Build.agreeOutside_planOf hvalid hmode fun other hother => ?_
  exact halike.layersFor_eq hloads hloads' hother

/-! ## A document of the dark mode -/

/-- A layer of all modes, with a color and a reference to it. -/
def LayerSource.palette : LayerSource :=
  { name := "palette", source := none
    data := some [(.str "accent", .map [(.str "value", .str "#00f")]),
      (.str "button", .map [(.str "value", .str "\x7baccent\x7d")])]
    mode := none, group := "tokens", emit := true, skippable := false }

/-- A layer of the dark mode, which is read from a document if there is one. -/
def LayerSource.dark : LayerSource :=
  { name := "dark", source := some "dark.json", data := none
    mode := some "dark", group := "tokens", emit := true, skippable := true }

/-- Settings with these layers. -/
def Config.darkDocument : Config :=
  { theme := "brand"
    dataDir := ⟨.root, ["tokens"]⟩
    outputDir := ⟨.root, ["out"]⟩
    modes := ["light", "dark"]
    defaultMode := "light"
    layers := [.palette, .dark]
    indexImports := []
    minify := false }

theorem Config.valid_darkDocument : Config.darkDocument.Valid where
  modes_nodup := by decide
  modes_not_blank := by decide
  default_mem := by decide
  names_nodup := by decide
  origins := by
    intro layer hlayer
    rcases List.mem_cons.mp hlayer with rfl | hlayer
    · right
      decide
    · left
      rw [List.mem_singleton.mp hlayer]
      decide
  layer_modes := by decide
  index_free := by decide

/-- A document that gives the color a value. -/
def Json.accentOf (color : String) : Json :=
  .obj [("accent", .obj [("value", .str color)])]

/-- A tree with this document for the dark mode. -/
def FileTree.withAccent (color : String) : FileTree :=
  { entries := [(["tokens"], .directory 0),
      (["tokens", "dark.json"], .file (Json.accentOf color).render.toUTF8 0)]
    workingDirectory := []
    clock := 1 }

/-- The layer that the settings give. -/
def Layer.palette : Layer :=
  { name := "palette", mode := none, group := "tokens", emit := true, source := "<inline:palette>"
    tokens := [⟨["accent"], some .string, .literal (.str "#00f"), "palette", none⟩,
      ⟨["button"], none, .reference ["accent"], "palette", none⟩] }

/-- The layer of the document. -/
def Layer.accentOf (color : String) : Layer :=
  { name := "dark", mode := some "dark", group := "tokens", emit := true, source := "dark.json"
    tokens := [⟨["accent"], some .string, .literal (.str color), "dark", none⟩] }

/-- A tree that differs in the document of the dark mode holds the same palette. -/
theorem Config.alikeOutside_withAccent (color color' : String) :
    Config.darkDocument.AlikeOutside "dark" (.withAccent color) (.withAccent color') := by
  refine alikeOutside_of_documents fun source hsource hmode path hpath => ?_
  rcases List.mem_cons.mp hsource with rfl | hsource
  · cases hpath
  · rw [List.mem_singleton.mp hsource] at hmode
    exact absurd rfl hmode

/-- If the document can be read, a dry build goes through. -/
theorem Pipeline.exists_dry_build_withAccent (color : String)
    (htext : FileTree.decodeText (Json.accentOf color).render.toUTF8 =
      some (Json.accentOf color).render)
    (hread : (Json.read .refuse (Json.accentOf color).render).toOption.map Json.render =
      some (Json.accentOf color).render)
    (hlayer : Store.layerOf .dark (.ofJson (Json.accentOf color)) = .ok (.accentOf color))
    (hstopped : (Build.gathering false .empty [.palette, .accentOf color]
      ["light", "dark"]).stopped.isNone = true)
    (hfindings : (Build.findings .darkDocument false .empty [.palette, .accentOf color]
      ["light", "dark"]).isEmpty = true) :
    ∃ result, (((new .darkDocument .empty false).after []).buildUnder Output.noRefusals
      (.withAccent color) { BuildOptions.plain with dryRun := true }).result = .ok result := by
  have hbytes : (FileTree.withAccent color).readBytes ⟨.root, ["tokens", "dark.json"]⟩ =
      .ok (Json.accentOf color).render.toUTF8 := rfl
  have hpath : LayerSource.documentPath? Config.darkDocument.dataDir .dark =
      some ⟨.root, ["tokens", "dark.json"]⟩ := rfl
  have hdark := Store.loadLayer_new_of_document
    (FileTree.holdsDocument_of_bytes hbytes htext (Json.read_eq_ok_of_render hread)) hpath hlayer
  have hpalette : ((Store.new Config.darkDocument.dataDir).loadLayer (.withAccent color)
      .palette).1 = .ok (some .palette) := rfl
  have hloads : Config.darkDocument.Loads (.withAccent color) := by
    refine Config.loads_of_each fun source hsource => ?_
    rcases List.mem_cons.mp hsource with rfl | hsource
    · exact ⟨_, hpalette⟩
    · rw [List.mem_singleton.mp hsource]
      exact ⟨_, hdark⟩
  have hlayers : Config.darkDocument.freshLayers (.withAccent color) =
      [.palette, .accentOf color] := by
    rw [hloads.freshLayers_eq]
    change List.filterMap _ [LayerSource.palette, LayerSource.dark] = _
    rw [List.filterMap_cons_some (Store.freshLayer?_of_loadLayer hpalette),
      List.filterMap_cons_some (Store.freshLayer?_of_loadLayer hdark), List.filterMap_nil]
  have hclean : Build.Clean .darkDocument [.palette, .accentOf color] ["light", "dark"] :=
    (Build.clean_iff _ false (by decide)).mpr
      ⟨Option.isNone_iff_eq_none.mp hstopped, List.isEmpty_iff.mp hfindings⟩
  rw [← hlayers] at hclean
  have hplan : ((new .darkDocument .empty false).after []).plan Output.noRefusals
      (.withAccent color) { BuildOptions.plain with dryRun := true } = .ok (Build.planOf _ _ _) :=
    (plan_after_eq_ok_iff Config.valid_darkDocument (discernible_nil ..)).mpr
      ⟨_, rfl, hloads, hclean, rfl⟩
  obtain ⟨⟨result, hresult, _⟩, _⟩ := buildUnder_of_plan_ok rfl hplan
  exact ⟨result, hresult⟩

theorem Pipeline.builds_agree_outside_dark :
    ∃ result result',
      (((new .darkDocument .empty false).after []).buildUnder Output.noRefusals
        (.withAccent "#88f") { BuildOptions.plain with dryRun := true }).result = .ok result ∧
      (((new .darkDocument .empty false).after []).buildUnder Output.noRefusals
        (.withAccent "#99f") { BuildOptions.plain with dryRun := true }).result = .ok result' ∧
      Config.darkDocument.AlikeOutside "dark" (.withAccent "#88f") (.withAccent "#99f") ∧
      Build.AgreeOutside .darkDocument "dark" result.planned result'.planned := by
  obtain ⟨result, hresult⟩ := exists_dry_build_withAccent "#88f"
    (by decide +kernel) (by decide +kernel) rfl (by decide +kernel) (by decide +kernel)
  obtain ⟨result', hresult'⟩ := exists_dry_build_withAccent "#99f"
    (by decide +kernel) (by decide +kernel) rfl (by decide +kernel) (by decide +kernel)
  have halike := Config.alikeOutside_withAccent "#88f" "#99f"
  refine ⟨result, result', hresult, hresult', halike, ?_⟩
  exact builds_agree_outside_mode .darkDocument "dark" false false [] [] Output.noRefusals
    Output.noRefusals (.withAccent "#88f") (.withAccent "#99f") _ _ result result'
    Config.valid_darkDocument (by decide) halike (discernible_nil ..) (discernible_nil ..)
    rfl rfl hresult hresult'

end DesignTokens
