import DesignTokens.Proofs.Build.ModeSelection
/-!
# Which mode decides placement

The sheet that a path goes to, and its place there, are decided by one mode: the default one if it
is built, and else the first one that is.  So a filter that leaves out the default mode restricts
the build only where these two modes agree; elsewhere it may drop paths, bring up others, or move
them to another sheet.
-/

set_option autoImplicit false

namespace DesignTokens

/-! ## The sheets of a mode -/

namespace Cascade

variable {layers : List Layer} {mode other group : String} {path : TokenPath}

/-- The group that a path goes to in a mode: that of the layer that wins it, if this is emitted. -/
def groupFor? (layers : List Layer) (mode : String) (path : TokenPath) : Option String :=
  (winningLayer? layers mode path).bind fun layer => if layer.emit then some layer.group else none

/-- The paths that go to a group in a mode, in the order of their definition. -/
def pathsFor (layers : List Layer) (mode group : String) : List TokenPath :=
  (definitionOrder layers mode).filter fun path => groupFor? layers mode path = some group

/-- The sheets that a mode decides: of every group that a path goes to. -/
def sheetsBy (groups : List String) (layers : List Layer) (mode : String) :
    OrderedMap String (List TokenPath) :=
  (groups.map fun group => (group, pathsFor layers mode group)).filter fun sheet =>
    !sheet.2.isEmpty

theorem groupFor?_eq_some_iff : groupFor? layers mode path = some group ↔
    ∃ layer, winningLayer? layers mode path = some layer ∧ layer.emit = true ∧
      layer.group = group := by
  unfold groupFor?
  rw [Option.bind_eq_some_iff]
  refine exists_congr fun layer => and_congr_right fun _ => ?_
  cases layer.emit <;> simp

theorem mem_pathsFor_iff : path ∈ pathsFor layers mode group ↔
    groupFor? layers mode path = some group := by
  unfold pathsFor
  rw [List.mem_filter, decide_eq_true_eq, and_iff_right_iff_imp]
  intro hgroup
  obtain ⟨layer, hlayer, _⟩ := groupFor?_eq_some_iff.mp hgroup
  obtain ⟨token, _, hwinner⟩ := exists_winner?_of_winningLayer? hlayer
  exact exists_winner?_iff.mp ⟨token, hwinner⟩

/-- Two modes fill the sheets with the same paths exactly if every path goes to the same group in
both, or to none. -/
theorem mem_pathsFor_congr_iff :
    (∀ group path, path ∈ pathsFor layers mode group ↔ path ∈ pathsFor layers other group) ↔
      ∀ path, groupFor? layers mode path = groupFor? layers other path := by
  simp only [mem_pathsFor_iff]
  constructor
  · intro h path
    exact Option.ext fun group => h group path
  · intro h group path
    rw [h path]

end Cascade

/-! ## The sheets of a build -/

/-- The groups of the settings are distinct. -/
theorem Config.nodup_groups (config : Config) : config.groups.Nodup := by
  have h := OrderedMap.nodup_keys_ofPairs (config.layers.map fun layer => (layer.group, ()))
  rwa [OrderedMap.keys_ofPairs, List.map_map] at h

namespace Css

variable {config : Config} {entries : ResolvedTree}

/-- Placing keeps the groups if the settings name them all. -/
theorem keys_foldl_place {groups : OrderedMap String (List TokenPath)}
    (h : ∀ entry ∈ entries, isEmitted config entry.2.layer = true →
      groupOf config entry.2.layer ∈ OrderedMap.keys groups) :
    OrderedMap.keys (entries.foldl (place config) groups) = OrderedMap.keys groups := by
  induction entries generalizing groups with
  | nil => rfl
  | cons entry rest ih =>
    have hkeys : OrderedMap.keys (place config groups entry) = OrderedMap.keys groups := by
      unfold place
      simp only
      split
      · rename_i hemitted
        rw [OrderedMap.keys_set, if_pos (h entry List.mem_cons_self hemitted)]
      · rfl
    rw [List.foldl_cons, ih, hkeys]
    intro later hlater hemitted
    rw [hkeys]
    exact h later (List.mem_cons_of_mem _ hlater) hemitted

/-- The sheets follow the order of the groups, and hold the members of the placement tree. -/
theorem emittedPaths_eq {trees : ResolvedModes}
    (h : ∀ entry ∈ placementTree config trees, isEmitted config entry.2.layer = true →
      groupOf config entry.2.layer ∈ config.groups) :
    emittedPaths config trees =
      (config.groups.map fun group =>
        (group, members config (placementTree config trees) group)).filter fun sheet =>
          !sheet.2.isEmpty := by
  have hnames : ((config.groups.map fun group => (group, ([] : List TokenPath))).map (·.1)) =
      config.groups := by
    simp [Function.comp_def]
  have hgroups : OrderedMap.keys (OrderedMap.ofPairs (config.groups.map fun group =>
      (group, ([] : List TokenPath)))) = config.groups := by
    rw [OrderedMap.ofPairs_of_nodup (hnames.symm ▸ config.nodup_groups)]
    exact hnames
  have hnodup := nodup_keys_foldl_place config (placementTree config trees)
    (OrderedMap.nodup_keys_ofPairs (config.groups.map fun group => (group, [])))
  unfold emittedPaths
  simp only
  rw [OrderedMap.eq_map_keys hnodup [], keys_foldl_place (by rwa [hgroups]), hgroups]
  simp only [getD_foldl_place, getD_noMembers, List.nil_append]

end Css

namespace Build

variable {config : Config} {asked : Option (List String)} {modes : List String}
  {layers : List Layer} {trees : Css.ResolvedModes}

/-- The members of a group in a settled tree are the paths that go there in its mode. -/
theorem ResolvedWhole.members_eq (h : ResolvedWhole layers modes trees) (hvalid : config.Valid)
    (hlayers : ∀ layer ∈ layers, ∃ source ∈ config.layers, layer.ComesFrom source)
    {mode : String} (hmode : mode ∈ modes) {tree : ResolvedTree}
    (hget : OrderedMap.get? trees mode = some tree) (group : String) :
    Css.members config tree group = Cascade.pathsFor layers mode group := by
  have hkeys := h.keys_tree hmode hget
  have hnodup : (OrderedMap.keys tree).Nodup := hkeys ▸ Cascade.nodup_definitionOrder layers mode
  have hentry (entry : TokenPath × ResolvedToken) (hmem : entry ∈ tree) :
      (Css.isEmitted config entry.2.layer && Css.groupOf config entry.2.layer == group) =
        decide (Cascade.groupFor? layers mode entry.1 = some group) := by
    rw [Bool.eq_iff_iff, decide_eq_true_eq, Cascade.groupFor?_eq_some_iff,
      ← h.mem_members_iff hvalid hlayers hmode hget, Css.mem_members_iff, Bool.and_eq_true,
      beq_iff_eq]
    constructor
    · rintro ⟨hemitted, hgroup⟩
      exact ⟨entry.2, hmem, hemitted, hgroup⟩
    · rintro ⟨token, htoken, hplace⟩
      -- A path stands in a tree once.
      have heq := OrderedMap.get?_eq_some_of_mem hnodup htoken
      rw [OrderedMap.get?_eq_some_of_mem hnodup hmem, Option.some.injEq] at heq
      rwa [heq]
  unfold Cascade.pathsFor Css.members
  rw [← hkeys]
  unfold OrderedMap.keys
  rw [List.filter_map, List.filter_congr hentry]
  rfl

/-- The sheets of settled trees are those that the placement mode decides. -/
theorem ResolvedWhole.emittedPaths_eq (h : ResolvedWhole layers modes trees) (hvalid : config.Valid)
    (hmodes : selectModes config asked = .ok modes)
    (hlayers : ∀ layer ∈ layers, ∃ source ∈ config.layers, layer.ComesFrom source) :
    Css.emittedPaths config trees =
      Cascade.sheetsBy config.groups layers (placementMode config modes) := by
  obtain ⟨hplacement, hget⟩ := h.exists_placement hvalid hmodes
  have hgroups : ∀ entry ∈ Css.placementTree config trees,
      Css.isEmitted config entry.2.layer = true →
      Css.groupOf config entry.2.layer ∈ config.groups := by
    intro entry hentry hemitted
    have hmember := Css.mem_members_iff.mpr ⟨entry.2, hentry, hemitted, rfl⟩
    rw [h.mem_members_iff hvalid hlayers hplacement hget] at hmember
    obtain ⟨layer, hwins, _, hgroup⟩ := hmember
    obtain ⟨source, hsource, hcomes⟩ :=
      hlayers layer (Cascade.mem_layers_of_winningLayer? hwins)
    rw [← hgroup, hcomes.group]
    exact List.mem_eraseDups.mpr (List.mem_map_of_mem hsource)
  rw [Css.emittedPaths_eq hgroups]
  unfold Cascade.sheetsBy
  simp only [h.members_eq hvalid hlayers hplacement hget]

/-- Where there is nothing to be found, the trees are resolved as a whole. -/
theorem Clean.resolvedWhole (h : Clean config layers modes) (hmodes : modes.Nodup) :
    ResolvedWhole layers modes (Cascade.resolvedTrees layers modes) := by
  have hmemo := remembers_empty layers modes
  obtain ⟨hstopped, hfindings⟩ := (clean_iff config false hmodes).mp h
  obtain ⟨_, hnone, _⟩ := findings_eq_nil hstopped hfindings
  rw [← (gathering_eq false hmodes hmemo (stopped_gathering_eq_none_iff.mp hstopped)).1]
  exact resolvedWhole_of_forall₂ hmodes h.covered (forall₂_gathering hmodes hmemo hstopped hnone)

/-- A path stands in the sheet of a group. -/
def InSheet (sheets : OrderedMap String (List TokenPath)) (group : String) (path : TokenPath) :
    Prop :=
  ∃ paths, (group, paths) ∈ sheets ∧ path ∈ paths

theorem ResolvedWhole.inSheet_iff (h : ResolvedWhole layers modes trees) (hvalid : config.Valid)
    (hmodes : selectModes config asked = .ok modes)
    (hlayers : ∀ layer ∈ layers, ∃ source ∈ config.layers, layer.ComesFrom source)
    (group : String) (path : TokenPath) : InSheet (Css.emittedPaths config trees) group path ↔
      Cascade.groupFor? layers (placementMode config modes) path = some group := by
  rw [Cascade.groupFor?_eq_some_iff]
  exact h.placed_iff hvalid hmodes hlayers group path

/-! ## Without the default mode -/

/-- A build without the default mode beside the build of all modes, where `first` is the first mode
that is built. -/
structure PlacedBy (first : String) (config : Config) (layers : List Layer) (filter : List String)
    (full part : Planned) : Prop where
  trees : part.resolved = full.resolved.filter fun tree => filter.contains tree.1
  /-- The full build has the sheets that the default mode decides. -/
  fullFiles : full.files = Css.filesOf config config.orderedModes (declareIn full.resolved)
    (Cascade.sheetsBy config.groups layers config.defaultMode)
  /-- The filtered build declares the same, but in the sheets that its first mode decides. -/
  partFiles : part.files = Css.filesOf config (config.orderedModes.filter (filter.contains ·))
    (declareIn full.resolved) (Cascade.sheetsBy config.groups layers first)
  /-- The builds emit the same paths into the same groups exactly if every path goes to the same
  group in both modes, or to none. -/
  same_iff : (∀ group path, InSheet (Css.emittedPaths config part.resolved) group path ↔
      InSheet (Css.emittedPaths config full.resolved) group path) ↔
    ∀ path, Cascade.groupFor? layers first path =
      Cascade.groupFor? layers config.defaultMode path
  /-- If both modes also define them in the same order, the filtered build restricts the full one:
  it has the same rule blocks for the modes that it builds. -/
  restricts : (∀ group, Cascade.pathsFor layers first group =
      Cascade.pathsFor layers config.defaultMode group) → Restricts config filter full part

/-- A filter that selects modes is one of known modes. -/
theorem eq_filter_of_selectModes {filter : List String} (hne : filter ≠ [])
    (h : selectModes config (some filter) = .ok modes) :
    modes = config.orderedModes.filter (filter.contains ·) := by
  unfold selectModes at h
  split at h
  · rename_i hasked
    cases hasked
  · rename_i hasked
    cases hasked
    exact absurd rfl hne
  · rename_i hasked
    cases hasked
    split at h
    · cases h
    · exact (Except.ok.inj h).symm

theorem placedBy_planOf {first : String} {rest filter : List String} (hvalid : config.Valid)
    (hlayers : ∀ layer ∈ layers, ∃ source ∈ config.layers, layer.ComesFrom source)
    (hmodes : selectModes config asked = .ok (config.orderedModes.filter (filter.contains ·)))
    (hdefault : config.defaultMode ∉ filter)
    (hfirst : config.orderedModes.filter (filter.contains ·) = first :: rest)
    (hfull : Clean config layers config.orderedModes)
    (hpart : Clean config layers (config.orderedModes.filter (filter.contains ·))) :
    PlacedBy first config layers filter (planOf config layers config.orderedModes)
      (planOf config layers (config.orderedModes.filter (filter.contains ·))) := by
  have hall : selectModes config none = .ok config.orderedModes := rfl
  have hplacesAll : placementMode config config.orderedModes = config.defaultMode :=
    if_pos (hvalid.mem_orderedModes.mpr hvalid.default_mem)
  have hplaces : placementMode config (config.orderedModes.filter (filter.contains ·)) = first := by
    unfold placementMode
    rw [if_neg, hfirst, List.headD_cons]
    intro hmem
    exact hdefault (by simpa using (List.mem_filter.mp hmem).2)
  have hwholeAll := hfull.resolvedWhole hvalid.nodup_orderedModes
  have hwhole := hpart.resolvedWhole (hvalid.nodup_orderedModes.filter _)
  have hsheetsAll := hwholeAll.emittedPaths_eq hvalid hall hlayers
  have hsheets := hwhole.emittedPaths_eq hvalid hmodes hlayers
  rw [hplacesAll] at hsheetsAll
  rw [hplaces] at hsheets
  constructor
  case trees => exact resolved_planOf_filter config layers (filter.contains ·)
  case fullFiles =>
    rw [← hsheetsAll]
    rfl
  case partFiles =>
    rw [files_planOf_filter layers hvalid (filter.contains ·), hsheets]
    rfl
  case same_iff =>
    rw [← Cascade.mem_pathsFor_congr_iff]
    refine forall_congr' fun group => forall_congr' fun path => ?_
    rw [Cascade.mem_pathsFor_iff, Cascade.mem_pathsFor_iff, ← hplaces, ← hplacesAll]
    unfold planOf
    rw [hwhole.inSheet_iff hvalid hmodes hlayers,
      hwholeAll.inSheet_iff hvalid hall hlayers]
  case restricts =>
    intro hpaths
    refine restricts_of_emittedPaths_eq layers hvalid ?_
    rw [hsheets, hsheetsAll]
    unfold Cascade.sheetsBy
    simp only [hpaths]

end Build

namespace Pipeline

/-- Whenever a build of some modes without the default one succeeds, and the build of all modes as
well, whatever either pipeline has done before, they declare the same of every mode that both of
them build; but the sheets are those of the first mode that is built.  They agree with the sheets of
the full build exactly as far as that mode and the default one agree on where paths go. -/
theorem build_without_default_places (config : Config) (detailed detailed' : Bool)
    (history history' : List (FileTree × Call)) (refuses refuses' : Output.Refusals)
    (tree : FileTree) (options options' : BuildOptions) (filter : List String)
    (full part : BuildResult) (hvalid : config.Valid)
    (hdiscernible : Discernible config history tree)
    (hdiscernible' : Discernible config history' tree)
    (hunfiltered : options.modes.getD [] = []) (hfilter : options'.modes = some filter)
    (hne : filter ≠ []) (hdefault : config.defaultMode ∉ filter)
    (hfull : (((new config .empty detailed).after history).buildUnder refuses tree options).result =
      .ok full)
    (hpart : (((new config .empty detailed').after history').buildUnder refuses' tree
      options').result = .ok part) :
    ∃ first rest, config.orderedModes.filter (filter.contains ·) = first :: rest ∧
      Build.PlacedBy first config (config.freshLayers tree) filter
        ⟨full.resolved, full.files⟩ ⟨part.resolved, part.files⟩ := by
  obtain ⟨modes, hmodes, _, hclean, hplanned⟩ :=
    (plan_after_eq_ok_iff hvalid hdiscernible).mp (plan_of_buildUnder_eq_ok hfull)
  obtain ⟨modes', hmodes', _, hclean', hplanned'⟩ :=
    (plan_after_eq_ok_iff hvalid hdiscernible').mp (plan_of_buildUnder_eq_ok hpart)
  have hall : modes = config.orderedModes :=
    Except.ok.inj (hmodes.symm.trans (Build.selectModes_unfiltered config hunfiltered))
  subst hall
  rw [hfilter] at hmodes'
  have hselected := Build.eq_filter_of_selectModes hne hmodes'
  subst hselected
  rw [hplanned, hplanned']
  obtain ⟨first, rest, hfirst⟩ :=
    List.exists_cons_of_ne_nil (Build.ne_nil_of_selectModes hvalid hmodes')
  exact ⟨first, rest, hfirst, Build.placedBy_planOf hvalid
    (fun layer hlayer => Store.exists_source_of_mem_layers hlayer) hmodes' hdefault hfirst hclean
    hclean'⟩

end Pipeline

/-- Settings with an accent that a layer of the dark mode replaces; this layer is not emitted. -/
def Config.hiddenNight : Config :=
  { Config.twoPalettes with
    layers := [
      { name := "base", source := none
        data := some [
          (.str "accent", .map [(.str "value", .str "#00f"), (.str "type", .str "color")]),
          (.str "button", .map [(.str "value", .str "{accent}")])]
        mode := none, group := "tokens", emit := true, skippable := false },
      { name := "night", source := none
        data := some [
          (.str "accent", .map [(.str "value", .str "#88f"), (.str "type", .str "color")])]
        mode := some "dark", group := "tokens", emit := false, skippable := false }] }

theorem Config.valid_hiddenNight : Config.hiddenNight.Valid where
  modes_nodup := by decide
  modes_not_blank := by decide
  default_mem := by decide
  names_nodup := by decide
  origins := by
    intro layer hlayer
    right
    revert layer
    decide
  layer_modes := by decide
  index_free := by decide

namespace Pipeline

theorem dark_build_places_hiddenNight :
    ∃ full part first rest,
      (((new .hiddenNight .empty false).after []).buildUnder Output.noRefusals ⟨[], [], 1⟩
        .plain).result = .ok full ∧
      (((new .hiddenNight .empty false).after []).buildUnder Output.noRefusals ⟨[], [], 1⟩
        { BuildOptions.plain with modes := some ["dark"] }).result = .ok part ∧
      Config.hiddenNight.orderedModes.filter (["dark"].contains ·) = first :: rest ∧
      Build.PlacedBy first .hiddenNight (Config.hiddenNight.freshLayers ⟨[], [], 1⟩) ["dark"]
        ⟨full.resolved, full.files⟩ ⟨part.resolved, part.files⟩ := by
  have hexists (options : BuildOptions)
      (h : (((new .hiddenNight .empty false).after []).buildUnder Output.noRefusals ⟨[], [], 1⟩
        options).result.isOk = true) :
      ∃ result, (((new .hiddenNight .empty false).after []).buildUnder Output.noRefusals ⟨[], [], 1⟩
        options).result = .ok result := by
    cases hresult : (((new .hiddenNight .empty false).after []).buildUnder Output.noRefusals
        ⟨[], [], 1⟩ options).result with
    | error failure =>
      rw [hresult] at h
      cases h
    | ok result => exact ⟨result, rfl⟩
  obtain ⟨full, hfull⟩ := hexists .plain (by decide +kernel)
  obtain ⟨part, hpart⟩ :=
    hexists { BuildOptions.plain with modes := some ["dark"] } (by decide +kernel)
  obtain ⟨first, rest, hfirst, hplaced⟩ :=
    build_without_default_places .hiddenNight false false [] [] Output.noRefusals
      Output.noRefusals ⟨[], [], 1⟩ .plain _ ["dark"] full part Config.valid_hiddenNight
      (discernible_nil ..) (discernible_nil ..) rfl rfl (by decide) (by decide) hfull hpart
  exact ⟨full, part, first, rest, hfull, hpart, hfirst, hplaced⟩

/-- Both builds succeed; the full one emits the accent in both modes, the dark one drops it. -/
theorem dark_build_drops_accent :
    let sheets (options : BuildOptions) :=
      ((new .hiddenNight .empty false).build ⟨[], [], 1⟩ options).result.toOption.map fun result =>
        Css.emittedPaths .hiddenNight result.resolved
    sheets .plain = some [("tokens", [["accent"], ["button"]])] ∧
      sheets { BuildOptions.plain with modes := some ["dark"] } = some [("tokens", [["button"]])] := by
  decide +kernel

end Pipeline

end DesignTokens
