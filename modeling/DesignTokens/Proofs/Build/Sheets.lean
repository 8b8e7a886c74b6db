import DesignTokens.Proofs.Build.Trees
import DesignTokens.Proofs.Css.Rule
import DesignTokens.Proofs.Identifier
import DesignTokens.Proofs.Resolution.Cache
/-!
# What a build yields

From the loaded layers to the style sheets: which paths are declared, in which sheet, under which
names, in which order, and with which values.  The specification speaks of layers, winners and
references only, and not of how a build finds them.  Where the checks find nothing, no entry of a
style sheet is missing, whatever was remembered before.
-/

set_option autoImplicit false

namespace DesignTokens

/-! ## Layers and their sources -/

/-- Settings with distinct layer names find every layer under its name. -/
theorem Config.Valid.layerNamed?_eq {config : Config} (h : config.Valid) {source : LayerSource}
    (hsource : source ∈ config.layers) : Css.layerNamed? config source.name = some source := by
  unfold Css.layerNamed?
  have hsome : (config.layers.reverse.find? fun layer => layer.name == source.name).isSome := by
    rw [List.find?_isSome]
    exact ⟨source, List.mem_reverse.mpr hsource, by simp⟩
  obtain ⟨found, hfound⟩ := Option.isSome_iff_exists.mp hsome
  have hmem : found ∈ config.layers := List.mem_reverse.mp (List.mem_of_find?_eq_some hfound)
  have hname : found.name = source.name := by simpa using List.find?_some hfound
  rw [hfound, List.inj_on_of_nodup_map h.names_nodup hmem hsource hname]

theorem Layer.ComesFrom.isEmitted_eq {config : Config} {layer : Layer} {source : LayerSource}
    (h : layer.ComesFrom source) (hvalid : config.Valid) (hsource : source ∈ config.layers) :
    Css.isEmitted config layer.name = layer.emit := by
  unfold Css.isEmitted
  rw [h.name, hvalid.layerNamed?_eq hsource, h.emit]

theorem Layer.ComesFrom.groupOf_eq {config : Config} {layer : Layer} {source : LayerSource}
    (h : layer.ComesFrom source) (hvalid : config.Valid) (hsource : source ∈ config.layers) :
    Css.groupOf config layer.name = layer.group := by
  unfold Css.groupOf
  rw [h.name, hvalid.layerNamed?_eq hsource, h.group]

/-- What holds of the literals of all layers holds of what their references lead to. -/
theorem Cascade.Reaches.holds {layers : List Layer} {holds : Scalar → Prop}
    (hliterals : ∀ layer ∈ layers, ∀ token ∈ layer.tokens,
      ∀ literal, token.value = .literal literal → holds literal) {mode : String} {path : TokenPath}
    {value : Scalar} (h : Cascade.Reaches layers mode path value) : holds value := by
  induction h with
  | literal hwinner hvalue =>
    obtain ⟨layer, hlayer, htoken⟩ := Cascade.exists_winningLayer?_of_winner? hwinner
    exact hliterals layer (Cascade.mem_layers_of_winningLayer? hlayer) _ htoken _ hvalue
  | reference _ _ _ ih => exact ih

namespace Build

/-! ## The specification -/

/-- What layers are to become in the built modes.  `sheets` lists, by group, the paths that each
sheet declares, and `declare` gives the declaration of a path in a mode. -/
structure Realizes (config : Config) (layers : List Layer) (modes : List String)
    (planned : Planned) (sheets : List (String × List TokenPath))
    (declare : String → TokenPath → Css.Declaration) : Prop where
  /-- The files are the sheets, with one block per mode, and the indexes. -/
  files : planned.files = Css.filesOf config modes declare sheets
  /-- Behind the selector of its mode, every block of a sheet is read back as the declarations of the
  sheet's paths. -/
  read : ∀ sheet ∈ sheets, ∀ mode ∈ modes,
    Css.readBehind? (Css.modeSelector config.defaultMode mode)
      (Css.blockOf config declare sheet.2 mode).toList = some (sheet.2.map (declare mode), [])
  /-- The blocks follow the order of the modes, and every mode has a resolved tree. -/
  modes_sublist : modes.Sublist config.orderedModes
  trees : OrderedMap.keys planned.resolved = modes
  /-- A group has one sheet. -/
  groups_nodup : (sheets.map (·.1)).Nodup
  /-- A path is placed in a group's sheet exactly if the layer that wins it in the placement mode
  is emitted into this group. -/
  placed : ∀ group path, (∃ paths, (group, paths) ∈ sheets ∧ path ∈ paths) ↔
    ∃ layer, Cascade.winningLayer? layers (placementMode config modes) path = some layer ∧
      layer.emit = true ∧ layer.group = group
  /-- No path is placed twice. -/
  placed_nodup : (sheets.flatMap (·.2)).Nodup
  /-- A sheet keeps the order in which the cascade defines its paths. -/
  ordered : ∀ sheet ∈ sheets,
    sheet.2.Sublist (Cascade.definitionOrder layers (placementMode config modes))
  /-- Names are identifiers, of which no two are the same. -/
  named : ∀ mode ∈ modes, ∀ path ∈ sheets.flatMap (·.2),
    (declare mode path).name = Identifier.ofPath path
  names_distinct : ∀ path ∈ sheets.flatMap (·.2), ∀ other ∈ sheets.flatMap (·.2),
    Identifier.ofPath path = Identifier.ofPath other → path = other
  /-- A value is the literal that the path's references reach in the mode's own cascade, written for
  the type that the path has in the mode's resolved tree. -/
  valued : ∀ mode ∈ modes, ∀ path ∈ sheets.flatMap (·.2), ∃ tree token value,
    OrderedMap.get? planned.resolved mode = some tree ∧
      OrderedMap.get? tree path = some token ∧
      Cascade.Reaches layers mode path value ∧
      (declare mode path).value = Css.renderValue value token.type

variable {config : Config} {asked : Option (List String)} {modes : List String}
  {layers : List Layer} {detailed : Bool} {cache : ResolutionCache}

/-! ## The trees without findings -/

/-- What is known of the resolved trees of a build that has nothing left to find. -/
structure ResolvedWhole (layers : List Layer) (modes : List String) (trees : Css.ResolvedModes) :
    Prop where
  keys : OrderedMap.keys trees = modes
  tree : ∀ mode ∈ modes, ∃ tree, OrderedMap.get? trees mode = some tree ∧
    List.Forall₂ (Resolution.ResolvesTo (Cascade.compose layers mode))
      (Cascade.compose layers mode) tree
  /-- The modes have the same paths. -/
  covered : ∀ mode ∈ modes, ∀ other ∈ modes, ∀ path ∈ Cascade.definitionOrder layers mode,
    path ∈ Cascade.definitionOrder layers other

theorem resolvedWhole_of_forall₂ {trees : Css.ResolvedModes} (hmodes : modes.Nodup)
    (hgaps : Cascade.coverageGaps (Cascade.composeAll layers modes) = [])
    (h : List.Forall₂ (fun mode resolved =>
      ResolvesMode (mode, Cascade.compose layers mode) resolved) modes trees) :
    ResolvedWhole layers modes trees := by
  have hkeys : OrderedMap.keys trees = modes := by
    clear hmodes hgaps
    induction h with
    | nil => rfl
    | cons hmode _ ih =>
      unfold OrderedMap.keys at ih ⊢
      rw [List.map_cons, ih, hmode.1]
  refine ⟨hkeys, ?_, ?_⟩
  · intro mode hmode
    obtain ⟨⟨mode', tree⟩, hmem, rfl, htree⟩ := Lists.exists_right_of_forall₂ h hmode
    exact ⟨tree, OrderedMap.get?_eq_some_of_mem (hkeys.symm ▸ hmodes) hmem, htree⟩
  · intro mode hmode other hother path hpath
    rw [Cascade.composeAll_of_nodup layers hmodes] at hgaps
    rw [← Cascade.keys_compose] at hpath ⊢
    exact Cascade.mem_keys_of_coverageGaps_eq_nil hgaps (List.mem_map_of_mem hmode)
      (List.mem_map_of_mem hother) hpath

variable {trees : Css.ResolvedModes}

theorem ResolvedWhole.keys_tree (h : ResolvedWhole layers modes trees) {mode : String}
    (hmode : mode ∈ modes) {tree : ResolvedTree} (hget : OrderedMap.get? trees mode = some tree) :
    OrderedMap.keys tree = Cascade.definitionOrder layers mode := by
  obtain ⟨tree', hget', htree⟩ := h.tree mode hmode
  rw [hget, Option.some.injEq] at hget'
  rw [hget', Resolution.keys_of_forall₂ htree, Cascade.keys_compose]

/-- A path of a mode has a resolved token there: the winner's, with what its references lead to. -/
theorem ResolvedWhole.exists_token (h : ResolvedWhole layers modes trees) {mode : String}
    (hmode : mode ∈ modes) {path : TokenPath} (hpath : path ∈ Cascade.definitionOrder layers mode) :
    ∃ tree winner found, OrderedMap.get? trees mode = some tree ∧
      Cascade.winner? layers mode path = some winner ∧
      Resolution.Leads (Cascade.compose layers mode) path found ∧
      OrderedMap.get? tree path = some (Resolution.resolvedToken path winner found) := by
  obtain ⟨tree, hget, htree⟩ := h.tree mode hmode
  obtain ⟨winner, hwinner⟩ := Cascade.exists_winner?_iff.mpr hpath
  have hcomposed : OrderedMap.get? (Cascade.compose layers mode) path = some winner := by
    rw [Cascade.get?_compose, hwinner]
  obtain ⟨found, hleads, htoken⟩ := Resolution.get?_of_forall₂ htree hcomposed
  exact ⟨tree, winner, found, hget, hwinner, hleads, htoken⟩

/-! ## Placement -/

/-- A winner carries the name of the winning layer. -/
theorem layer_of_winner? (hlayers : ∀ layer ∈ layers, ∃ source ∈ config.layers,
      layer.ComesFrom source) {mode : String} {path : TokenPath} {layer : Layer} {token : Token}
    (hlayer : Cascade.winningLayer? layers mode path = some layer) (htoken : token ∈ layer.tokens) :
    token.layer = layer.name := by
  obtain ⟨source, _, hcomes⟩ := hlayers layer (Cascade.mem_layers_of_winningLayer? hlayer)
  exact hcomes.tokens token htoken

/-- A tree places a path in a group exactly if the layer that wins the path is emitted into the
group. -/
theorem ResolvedWhole.mem_members_iff (h : ResolvedWhole layers modes trees) (hvalid : config.Valid)
    (hlayers : ∀ layer ∈ layers, ∃ source ∈ config.layers, layer.ComesFrom source)
    {mode : String} (hmode : mode ∈ modes) {tree : ResolvedTree}
    (hget : OrderedMap.get? trees mode = some tree) {group : String} {path : TokenPath} :
    path ∈ Css.members config tree group ↔
      ∃ layer, Cascade.winningLayer? layers mode path = some layer ∧ layer.emit = true ∧
        layer.group = group := by
  have hkeys := h.keys_tree hmode hget
  have hnodup : (OrderedMap.keys tree).Nodup := hkeys ▸ Cascade.nodup_definitionOrder layers mode
  have hplace {layer : Layer} (hlayer : Cascade.winningLayer? layers mode path = some layer) :
      Css.isEmitted config layer.name = layer.emit ∧
        Css.groupOf config layer.name = layer.group := by
    obtain ⟨source, hsource, hcomes⟩ := hlayers layer (Cascade.mem_layers_of_winningLayer? hlayer)
    exact ⟨hcomes.isEmitted_eq hvalid hsource, hcomes.groupOf_eq hvalid hsource⟩
  rw [Css.mem_members_iff]
  constructor
  · rintro ⟨token, hmem, hemitted, hgroup⟩
    have htoken := OrderedMap.get?_eq_some_of_mem hnodup hmem
    have hpath := hkeys ▸ OrderedMap.mem_keys_of_get?_eq_some htoken
    obtain ⟨tree', winner, found, hget', hwinner, _, htoken'⟩ := h.exists_token hmode hpath
    rw [hget, Option.some.injEq] at hget'
    rw [← hget', htoken, Option.some.injEq] at htoken'
    obtain ⟨layer, hlayer, hmem'⟩ := Cascade.exists_winningLayer?_of_winner? hwinner
    have hname : token.layer = layer.name := by
      rw [htoken']
      exact layer_of_winner? hlayers hlayer hmem'
    rw [hname, (hplace hlayer).1] at hemitted
    rw [hname, (hplace hlayer).2] at hgroup
    exact ⟨layer, hlayer, hemitted, hgroup⟩
  · rintro ⟨layer, hlayer, hemitted, hgroup⟩
    obtain ⟨token, hmem, hwinner⟩ := Cascade.exists_winner?_of_winningLayer? hlayer
    have hpath := Cascade.exists_winner?_iff.mp ⟨token, hwinner⟩
    obtain ⟨tree', winner, found, hget', hwinner', _, htoken⟩ := h.exists_token hmode hpath
    rw [hget, Option.some.injEq] at hget'
    rw [hwinner, Option.some.injEq] at hwinner'
    subst hget' hwinner'
    have hname : (Resolution.resolvedToken path token found).layer = layer.name :=
      layer_of_winner? hlayers hlayer hmem
    refine ⟨_, OrderedMap.mem_of_get?_eq_some htoken, ?_, ?_⟩
    · rw [hname, (hplace hlayer).1, hemitted]
    · rw [hname, (hplace hlayer).2, hgroup]

/-! ## Declarations -/

/-- The declaration of a path in a mode of resolved trees. -/
def declareIn (trees : Css.ResolvedModes) (mode : String) (path : TokenPath) : Css.Declaration :=
  match OrderedMap.get? ((OrderedMap.get? trees mode).getD []) path with
  | some token => ⟨Identifier.ofPath path, Css.renderValue token.value token.type⟩
  | none => default

theorem declaration?_eq {identifiers : OrderedMap TokenPath String} {mode : String}
    {path : TokenPath} {tree : ResolvedTree} {token : ResolvedToken}
    (hname : OrderedMap.get? identifiers path = some (Identifier.ofPath path))
    (htree : OrderedMap.get? trees mode = some tree)
    (htoken : OrderedMap.get? tree path = some token) :
    Css.declaration? identifiers ((OrderedMap.get? trees mode).getD []) path =
      some (declareIn trees mode path) := by
  unfold Css.declaration? declareIn
  rw [htree, Option.getD_some, hname, htoken]
  rfl

/-- Where sheets are written and no names collide, every placed path has a token in every mode, and
is declared with it. -/
theorem exists_declaration_of_files_eq_ok {files : List OutputFile}
    (hcollisions : (Claims.ofPaths (emittedPaths config trees)).collisions = [])
    (hfiles : Css.files config trees
      (Claims.ofPaths (emittedPaths config trees)).identifiers = .ok files) {mode : String}
    (hmode : mode ∈ Css.builtModes config trees) {path : TokenPath}
    (hpath : path ∈ emittedPaths config trees) :
    ∃ tree token, OrderedMap.get? trees mode = some tree ∧
      OrderedMap.get? tree path = some token ∧
      declareIn trees mode path =
        ⟨Identifier.ofPath path, Css.renderValue token.value token.type⟩ := by
  obtain ⟨d, hd⟩ := Css.exists_declaration_of_files_eq_ok hfiles hmode hpath
  cases htree : OrderedMap.get? trees mode with
  | none =>
    rw [htree] at hd
    simp [Css.declaration?] at hd
  | some tree =>
    rw [htree, Option.getD_some] at hd
    unfold Css.declaration? at hd
    rw [Claims.get?_identifiers_of_mem hcollisions hpath] at hd
    simp only [Option.bind_eq_bind, Option.bind_some, Option.bind_eq_some_iff] at hd
    obtain ⟨token, htoken, _⟩ := hd
    refine ⟨tree, token, rfl, htoken, ?_⟩
    unfold declareIn
    rw [htree, Option.getD_some, htoken]

/-- Sheets that are written hold the declarations, in the rule blocks of their modes. -/
theorem files_eq_of_files_eq_ok {files : List OutputFile}
    (hcollisions : (Claims.ofPaths (emittedPaths config trees)).collisions = [])
    (hfiles : Css.files config trees
      (Claims.ofPaths (emittedPaths config trees)).identifiers = .ok files) :
    files = Css.filesOf config (Css.builtModes config trees) (declareIn trees)
      (Css.emittedPaths config trees) := by
  have hwritten := Css.files_eq_ok fun mode hmode path hpath => by
    obtain ⟨tree, token, htree, htoken, _⟩ :=
      exists_declaration_of_files_eq_ok hcollisions hfiles hmode hpath
    exact declaration?_eq (Claims.get?_identifiers_of_mem hcollisions hpath) htree htoken
  exact Except.ok.inj (hfiles.symm.trans hwritten)

/-! ## What is planned -/

/-- The tree that decides placement is that of the placement mode. -/
theorem ResolvedWhole.exists_placement (h : ResolvedWhole layers modes trees) (hvalid : config.Valid)
    (hmodes : selectModes config asked = .ok modes) :
    placementMode config modes ∈ modes ∧
      OrderedMap.get? trees (placementMode config modes) =
        some (Css.placementTree config trees) := by
  have hplacement := placementMode_mem config (ne_nil_of_selectModes hvalid hmodes)
  obtain ⟨tree, hget, _⟩ := h.tree _ hplacement
  rw [placementTree_of_selectModes hmodes h.keys, hget, Option.getD_some]
  exact ⟨hplacement, rfl⟩

/-- The paths of the placement tree stand in the order of their definition. -/
theorem ResolvedWhole.keys_placementTree (h : ResolvedWhole layers modes trees) (hvalid : config.Valid)
    (hmodes : selectModes config asked = .ok modes) :
    OrderedMap.keys (Css.placementTree config trees) =
      Cascade.definitionOrder layers (placementMode config modes) := by
  obtain ⟨hplacement, hget⟩ := h.exists_placement hvalid hmodes
  exact h.keys_tree hplacement hget

/-- A path is placed in the sheet of a group exactly if the layer that wins it is emitted there. -/
theorem ResolvedWhole.placed_iff (h : ResolvedWhole layers modes trees) (hvalid : config.Valid)
    (hmodes : selectModes config asked = .ok modes)
    (hlayers : ∀ layer ∈ layers, ∃ source ∈ config.layers, layer.ComesFrom source)
    (group : String) (path : TokenPath) :
    (∃ paths, (group, paths) ∈ Css.emittedPaths config trees ∧ path ∈ paths) ↔
      ∃ layer, Cascade.winningLayer? layers (placementMode config modes) path = some layer ∧
        layer.emit = true ∧ layer.group = group := by
  obtain ⟨hplacement, hget⟩ := h.exists_placement hvalid hmodes
  rw [← h.mem_members_iff hvalid hlayers hplacement hget]
  constructor
  · rintro ⟨paths, hsheet, hmem⟩
    rwa [(Css.mem_emittedPaths_iff.mp hsheet).2] at hmem
  · intro hmem
    exact ⟨_, Css.mem_emittedPaths_iff.mpr ⟨List.ne_nil_of_mem hmem, rfl⟩, hmem⟩

/-- A placed path belongs to the cascade of every built mode. -/
theorem ResolvedWhole.mem_definitionOrder (h : ResolvedWhole layers modes trees) (hvalid : config.Valid)
    (hmodes : selectModes config asked = .ok modes) {path : TokenPath}
    (hpath : path ∈ (Css.emittedPaths config trees).flatMap (·.2)) {mode : String}
    (hmode : mode ∈ modes) : path ∈ Cascade.definitionOrder layers mode := by
  obtain ⟨hplacement, _⟩ := h.exists_placement hvalid hmodes
  obtain ⟨group, hgroup, hmem⟩ := List.mem_flatMap.mp hpath
  rw [(Css.mem_emittedPaths_iff.mp hgroup).2] at hmem
  apply h.covered _ hplacement mode hmode path
  rw [← h.keys_placementTree hvalid hmodes]
  exact (Css.members_sublist_keys _ group.1).subset hmem

/-- A placed path is declared, in every built mode, under its identifier and with the literal that
it leads to. -/
theorem ResolvedWhole.exists_declaration (h : ResolvedWhole layers modes trees) (hvalid : config.Valid)
    (hmodes : selectModes config asked = .ok modes) {path : TokenPath}
    (hpath : path ∈ (Css.emittedPaths config trees).flatMap (·.2)) {mode : String}
    (hmode : mode ∈ modes) :
    ∃ tree token, OrderedMap.get? trees mode = some tree ∧
      OrderedMap.get? tree path = some token ∧
      Cascade.Reaches layers mode path token.value ∧
      declareIn trees mode path =
        ⟨Identifier.ofPath path, Css.renderValue token.value token.type⟩ := by
  obtain ⟨tree, winner, found, htree, _, hleads, htoken⟩ :=
    h.exists_token hmode (h.mem_definitionOrder hvalid hmodes hpath hmode)
  refine ⟨tree, _, htree, htoken, hleads.reaches, ?_⟩
  unfold declareIn
  rw [htree, Option.getD_some, htoken]

/-- What resolved trees declare is what the layers are to become. -/
theorem ResolvedWhole.realizes (h : ResolvedWhole layers modes trees) (hvalid : config.Valid)
    (hmodes : selectModes config asked = .ok modes)
    (hlayers : ∀ layer ∈ layers, ∃ source ∈ config.layers, layer.ComesFrom source)
    (hliterals : ∀ layer ∈ layers, ∀ token ∈ layer.tokens,
      ∀ literal, token.value = .literal literal → literal.Contained)
    (hcollisions : (Claims.ofPaths (emittedPaths config trees)).collisions = [])
    {files : List OutputFile}
    (hfiles : files = Css.filesOf config modes (declareIn trees) (Css.emittedPaths config trees)) :
    Realizes config layers modes ⟨trees, files⟩ (Css.emittedPaths config trees)
      (declareIn trees) := by
  have hkeys := h.keys_placementTree hvalid hmodes
  refine
    { files := hfiles
      read := ?_
      modes_sublist := sublist_of_selectModes hmodes
      trees := h.keys
      groups_nodup := Css.nodup_keys_emittedPaths config trees
      placed := h.placed_iff hvalid hmodes hlayers
      placed_nodup := Css.nodup_placed (hkeys ▸ Cascade.nodup_definitionOrder layers _)
      ordered := ?_
      named := ?_
      names_distinct := fun path hpath other hother heq =>
        Claims.eq_of_ofPath_eq hcollisions hpath hother heq
      valued := ?_ }
  · intro sheet hsheet mode hmode
    have hcontained : ∀ d ∈ sheet.2.map (declareIn trees mode), d.Contained := by
      refine List.forall_mem_map.mpr fun path hpath => ?_
      obtain ⟨_, token, _, _, hreaches, hdeclared⟩ := h.exists_declaration hvalid hmodes
        (List.mem_flatMap.mpr ⟨sheet, hsheet, hpath⟩) hmode
      rw [hdeclared]
      exact ⟨Identifier.exists_body_ofPath path,
        Css.contained_renderValue (hreaches.holds hliterals) token.type⟩
    have hread := Css.readBehind?_rule config.minify (Css.modeSelector config.defaultMode mode)
      hcontained []
    rwa [List.append_nil] at hread
  · intro sheet hsheet
    rw [(Css.mem_emittedPaths_iff.mp hsheet).2, ← hkeys]
    exact Css.members_sublist_keys _ sheet.1
  · intro mode hmode path hpath
    obtain ⟨_, _, _, _, _, hdeclared⟩ := h.exists_declaration hvalid hmodes hpath hmode
    rw [hdeclared]
  · intro mode hmode path hpath
    obtain ⟨tree, token, htree, htoken, hreaches, hdeclared⟩ :=
      h.exists_declaration hvalid hmodes hpath hmode
    exact ⟨tree, token, token.value, htree, htoken, hreaches, by rw [hdeclared]⟩

/-- If the checks find nothing, what is planned is what the layers are to become. -/
theorem realizes_of_plan {planned : Planned} (hvalid : config.Valid)
    (hmodes : selectModes config asked = .ok modes)
    (hlayers : ∀ layer ∈ layers, ∃ source ∈ config.layers, layer.ComesFrom source)
    (hliterals : ∀ layer ∈ layers, ∀ token ∈ layer.tokens,
      ∀ literal, token.value = .literal literal → literal.Contained)
    (hmemo : ∀ mode ∈ modes, Resolution.Memo.Sound (Cascade.compose layers mode)
      (cache.memoFor mode (Cascade.compose layers mode)))
    (hfindings : findings config detailed cache layers modes = [])
    (hplan : plan config detailed cache layers modes = .ok planned) :
    ∃ sheets declare, Realizes config layers modes planned sheets declare := by
  obtain ⟨hstopped, hresolved, hfiles⟩ := plan_eq_ok_iff.mp hplan
  obtain ⟨hgaps, herrors, hcollisions⟩ := findings_eq_nil hstopped hfindings
  have hnodup := nodup_of_selectModes hvalid hmodes
  have hwhole :=
    resolvedWhole_of_forall₂ hnodup hgaps (forall₂_gathering hnodup hmemo hstopped herrors)
  have hwritten := files_eq_of_files_eq_ok hcollisions hfiles
  rw [builtModes_eq hmodes hwhole.keys] at hwritten
  obtain ⟨resolved, files⟩ := planned
  simp only at hresolved
  subst hresolved
  exact ⟨_, _, hwhole.realizes hvalid hmodes hlayers hliterals hcollisions hwritten⟩

/-! ## No entry is missing -/

variable {task : Task} {progress : Progress}

/-- Without an error to find, every mode's resolved tree has the paths of its composed one. -/
theorem keys_resolveAll {composed : List (String × TokenTree)}
    (h : (resolveAll true detailed cache composed).errors = []) :
    ∀ resolved ∈ (resolveAll true detailed cache composed).resolved, ∃ tree,
      (resolved.1, tree) ∈ composed ∧ OrderedMap.keys resolved.2 = OrderedMap.keys tree := by
  induction composed generalizing cache with
  | nil => exact List.forall_mem_nil _
  | cons entry rest ih =>
    obtain ⟨mode, tree⟩ := entry
    cases hrenderable : tree.isRenderable with
    | false =>
      rw [resolveAll, ResolutionCache.resolve_of_not_isRenderable hrenderable]
      exact List.forall_mem_nil _
    | true =>
      rw [(resolveAll_cons_of_isRenderable hrenderable).1, List.append_eq_nil_iff] at h
      obtain ⟨hfirst, hrest⟩ := h
      have hstopped := ResolutionCache.stopped_resolve_true hrenderable cache mode
      rw [resolveAll]
      simp only [hstopped]
      refine List.forall_mem_cons.mpr ⟨⟨tree, List.mem_cons_self, ?_⟩, ?_⟩
      · rw [← ResolutionCache.resolve_strict_of_errors_eq_nil hfirst,
          ResolutionCache.resolve_of_isRenderable hrenderable] at hstopped ⊢
        exact Resolution.keys_resolveEntries rfl hstopped
      · intro resolved hmem
        obtain ⟨other, hother, hkeys⟩ := ih hrest resolved hmem
        exact ⟨other, List.mem_cons_of_mem _ hother, hkeys⟩

/-- A path of the placement tree is a path of one of the trees. -/
theorem exists_tree_of_mem_emittedPaths {path : TokenPath} (h : path ∈ emittedPaths config trees) :
    ∃ tree ∈ trees, path ∈ OrderedMap.keys tree.2 := by
  obtain ⟨sheet, hsheet, hpath⟩ := List.mem_flatMap.mp h
  rw [(Css.mem_emittedPaths_iff.mp hsheet).2] at hpath
  have hkey := (Css.members_sublist_keys _ _).subset hpath
  rcases Css.placementTree_cases config trees with hnone | ⟨mode, hmem⟩
  · rw [hnone] at hkey
    cases hkey
  · exact ⟨_, hmem, hkey⟩

/-- If the checks find nothing, the files can be written, whatever is remembered. -/
theorem exists_plan_of_findings_eq_nil
    (hstopped : (gathering detailed cache layers modes).stopped = none)
    (hfindings : findings config detailed cache layers modes = []) :
    ∃ planned, plan config detailed cache layers modes = .ok planned := by
  obtain ⟨hgaps, herrors, hcollisions⟩ := findings_eq_nil hstopped hfindings
  have hkeys := keys_resolveAll herrors
  have hdeclared : ∀ mode ∈ Css.builtModes config (gathering detailed cache layers modes).resolved,
      ∀ path ∈ emittedPaths config (gathering detailed cache layers modes).resolved,
      Css.declaration? (claiming config detailed cache layers modes).identifiers
        ((OrderedMap.get? (gathering detailed cache layers modes).resolved mode).getD []) path =
          some (declareIn (gathering detailed cache layers modes).resolved mode path) := by
    intro mode hmode path hpath
    obtain ⟨other, hother, hin⟩ := exists_tree_of_mem_emittedPaths hpath
    obtain ⟨tree, htree⟩ := Option.isSome_iff_exists.mp (List.mem_filter.mp hmode).2
    -- All composed trees have the same paths, and every resolved tree has those of its own.
    obtain ⟨composed, hcomposed, hsame⟩ := hkeys _ (OrderedMap.mem_of_get?_eq_some htree)
    obtain ⟨composed', hcomposed', hsame'⟩ := hkeys _ hother
    rw [hsame'] at hin
    have hcovered := Cascade.mem_keys_of_coverageGaps_eq_nil hgaps hcomposed' hcomposed hin
    rw [← hsame, ← OrderedMap.get?_isSome_iff] at hcovered
    obtain ⟨token, htoken⟩ := Option.isSome_iff_exists.mp hcovered
    exact declaration?_eq (Claims.get?_identifiers_of_mem hcollisions hpath) htree htoken
  exact ⟨⟨_, _⟩, plan_eq_ok_iff.mpr ⟨hstopped, rfl, Css.files_eq_ok hdeclared⟩⟩

/-- The checks break down only where resolving does. -/
theorem stopped_of_checking_eq_breakdown {cause : Breakdown}
    (h : (checking task progress layers modes).outcome = .error (.breakdown cause)) :
    (gathering task.detailed progress.cache layers modes).stopped = some (.breakdown cause) := by
  obtain ⟨hfindings, hplan⟩ := checking_eq_breakdown h
  rcases plan_error_eq hplan with hstopped | ⟨hnone, _⟩
  · exact hstopped
  · rcases hfindings with hfindings | hstopped
    · obtain ⟨planned, hplanned⟩ := exists_plan_of_findings_eq_nil hnone hfindings
      rw [hplanned] at hplan
      cases hplan
    · exact hstopped

/-- Planning never lacks an entry of a style sheet. -/
theorem planning_ne_missingEntry :
    (planning task progress).outcome ≠ .error (.breakdown .missingEntry) := by
  intro hplanning
  cases hmodes : selectModes task.config task.options.modes with
  | error e =>
    rw [outcome_planning_of_refused_modes hmodes] at hplanning
    cases hplanning
  | ok modes =>
    cases hloading : (loading task progress).outcome with
    | error failure =>
      rw [planning_of_modes hmodes, Step.outcome_andThen_of_error hloading,
        Except.error.injEq] at hplanning
      subst hplanning
      rw [outcome_loading rfl] at hloading
      split at hloading
      · rename_i hstopped
        cases hloading
        exact (Store.load_stopped_ofLayer hstopped).ne_missingEntry rfl
      · cases hloading
      · cases hloading
    | ok loaded =>
      obtain ⟨hstopped, herrors⟩ := clean_of_loading_eq_ok hloading
      obtain ⟨before, _, houtcome⟩ :=
        outcome_planning_of_loaded task progress hmodes hstopped herrors
      rw [houtcome] at hplanning
      cases stopped_gathering_eq_some (stopped_of_checking_eq_breakdown hplanning)

end Build

namespace Pipeline

variable {refuses : Output.Refusals} {pipeline : Pipeline} {tree : FileTree}
  {options : BuildOptions}

/-- Nor does a whole run. -/
theorem buildUnder_ne_missingEntry :
    (pipeline.buildUnder refuses tree options).result ≠ .error (.breakdown .missingEntry) := by
  intro hresult
  cases hplan : pipeline.plan refuses tree options with
  | error failure =>
    rw [(buildUnder_of_plan_error hplan).1, Except.error.injEq] at hresult
    subst hresult
    exact Build.planning_ne_missingEntry hplan
  | ok planned =>
    unfold plan at hplan
    unfold buildUnder Build.stages Build.writing at hresult
    simp only [hplan] at hresult
    split at hresult
    · cases hresult
    · split at hresult
      · cases hresult
      · cases hresult
      · cases hresult

end Pipeline

/-- A build of valid settings never lacks an entry that a style sheet needs, and a build that
succeeds yields what its layers are to become: for every mode, one declaration of each path that an
emitted layer wins, with the literal that the path reaches in the mode's cascade.  The cache may
have been used before, as long as the digest tells the composed trees from those seen there. -/
theorem Pipeline.build_realizes_layers (refuses : Output.Refusals) (pipeline : Pipeline)
    (tree : FileTree) (options : BuildOptions) (history : List ResolutionCall)
    (hvalid : pipeline.config.Valid) (hcache : pipeline.cache = ResolutionCache.empty.after history)
    (hdistinguished : ∀ mode ∈ pipeline.config.modes,
      ResolutionCache.Distinguished (Cascade.compose
        (Store.load true tree pipeline.store pipeline.config.layers).layers mode ::
          ResolutionCall.trees history)) :
    (pipeline.buildUnder refuses tree options).result ≠ .error (.breakdown .missingEntry) ∧
      ∀ result, (pipeline.buildUnder refuses tree options).result = .ok result →
        ∃ modes sheets declare,
          Build.selectModes pipeline.config options.modes = .ok modes ∧
            Build.Realizes pipeline.config
              (Store.load true tree pipeline.store pipeline.config.layers).layers modes
              ⟨result.resolved, result.files⟩ sheets declare := by
  refine ⟨buildUnder_ne_missingEntry, fun result hresult => ?_⟩
  obtain ⟨modes, hmodes, _, _, hfindings, hplan⟩ :=
    Build.planning_eq_ok_iff.mp (plan_of_buildUnder_eq_ok hresult)
  have hmemo : ∀ mode ∈ modes, Resolution.Memo.Sound
      (Cascade.compose (Store.load true tree pipeline.store pipeline.config.layers).layers mode)
      (pipeline.cache.memoFor mode (Cascade.compose
        (Store.load true tree pipeline.store pipeline.config.layers).layers mode)) := by
    intro mode hmode
    have hknown : mode ∈ pipeline.config.modes :=
      hvalid.mem_orderedModes.mp ((Build.sublist_of_selectModes hmodes).subset hmode)
    rw [hcache]
    exact ResolutionCache.memo_sound_after history mode (hdistinguished mode hknown)
  obtain ⟨sheets, declare, hrealizes⟩ := Build.realizes_of_plan hvalid hmodes
    (fun layer hlayer => Store.exists_source_of_mem_layers hlayer)
    (fun layer hlayer token htoken literal => Store.contained_of_mem_layers hlayer htoken)
    hmemo hfindings hplan
  exact ⟨modes, sheets, declare, hmodes, hrealizes⟩

/-- Settings with two modes, whose palettes are not emitted, and a component that refers to the
palette of its mode. -/
def Config.twoPalettes : Config :=
  let palette (mode color : String) : LayerSource :=
    { name := mode ++ "-palette", source := none
      data := some [(.str "accent", .map [(.str "value", .str color)])]
      mode := some mode, group := "theme", emit := false, skippable := false }
  { theme := "brand"
    dataDir := ⟨.root, ["tokens"]⟩
    outputDir := ⟨.root, ["out"]⟩
    modes := ["light", "dark"]
    defaultMode := "light"
    layers := [
      palette "light" "#00f", palette "dark" "#88f",
      { name := "button", source := none
        data := some [(.str "button", .map [(.str "value", .str "{accent}")])]
        mode := none, group := "component", emit := true, skippable := false }]
    indexImports := []
    minify := false }

theorem Config.valid_twoPalettes : Config.twoPalettes.Valid where
  modes_nodup := by decide
  modes_not_blank := by decide
  default_mem := by decide
  names_nodup := by decide
  origins := by
    intro layer hlayer
    right
    revert layer
    decide
  layer_modes := by decide
  index_free := by decide

theorem Pipeline.build_realizes_twoPalettes :
    ∃ result modes sheets declare,
      ((Pipeline.new .twoPalettes .empty false).buildUnder Output.noRefusals ⟨[], [], 1⟩
        .plain).result = .ok result ∧
      Build.selectModes .twoPalettes none = .ok modes ∧
      Build.Realizes .twoPalettes
        (Store.load true ⟨[], [], 1⟩ (Store.new Config.twoPalettes.dataDir)
          Config.twoPalettes.layers).layers modes ⟨result.resolved, result.files⟩ sheets declare := by
  have hok : ((Pipeline.new .twoPalettes .empty false).buildUnder Output.noRefusals ⟨[], [], 1⟩
      .plain).result.isOk = true := by
    decide +kernel
  obtain ⟨_, hrealizes⟩ := Pipeline.build_realizes_layers Output.noRefusals
    (.new .twoPalettes .empty false) ⟨[], [], 1⟩ .plain [] Config.valid_twoPalettes rfl
    fun mode _ => ResolutionCache.distinguished_singleton (Cascade.keyed_compose _ mode)
  cases hresult : ((Pipeline.new .twoPalettes .empty false).buildUnder Output.noRefusals
      ⟨[], [], 1⟩ .plain).result with
  | error failure =>
    rw [hresult] at hok
    cases hok
  | ok result =>
    obtain ⟨modes, sheets, declare, hmodes, hsheets⟩ := hrealizes result hresult
    exact ⟨result, modes, sheets, declare, rfl, hmodes, hsheets⟩

end DesignTokens
