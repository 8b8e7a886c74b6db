import DesignTokens.Proofs.Build.Planned
/-!
# Building some of the modes

A filter that contains the default mode restricts the build: if the build of all modes comes as far
as formatting, so does the filtered one, and its sheets are those of the whole build without the
rule blocks of the other modes.
-/

set_option autoImplicit false

namespace DesignTokens

/-! ## Fewer modes, fewer findings -/

/-- Some of several trees without a gap have none either. -/
theorem Cascade.coverageGaps_eq_nil_of_subset {α : Type}
    {trees fewer : ByMode (OrderedMap TokenPath α)} (h : coverageGaps trees = [])
    (hfewer : fewer ⊆ trees) : coverageGaps fewer = [] := by
  unfold coverageGaps
  rw [List.filterMap_eq_nil_iff]
  intro path hpath
  obtain ⟨first, hfirst, hkey⟩ := mem_allPaths.mp hpath
  rw [gapAt?_eq_none_iff]
  intro second hsecond
  exact mem_keys_of_coverageGaps_eq_nil h (hfewer hfirst) (hfewer hsecond) hkey

/-- A filter that contains the default mode selects it. -/
theorem Config.Valid.default_mem_filter {config : Config} (h : config.Valid) {filter : List String}
    (hdefault : config.defaultMode ∈ filter) :
    config.defaultMode ∈ config.orderedModes.filter (filter.contains ·) :=
  List.mem_filter.mpr ⟨h.mem_orderedModes.mpr h.default_mem, by simpa using hdefault⟩

namespace Build

variable {config : Config} {asked : Option (List String)} {modes : List String}
  {layers : List Layer}

/-- Modes with the default mode among them are placed as all modes are. -/
theorem emittedPaths_of_default_mem (layers : List Layer) (hvalid : config.Valid)
    (hmodes : selectModes config asked = .ok modes) (hdefault : config.defaultMode ∈ modes) :
    Css.emittedPaths config (Cascade.resolvedTrees layers modes) =
      Css.emittedPaths config (Cascade.resolvedTrees layers config.orderedModes) := by
  have hall : selectModes config none = .ok config.orderedModes := rfl
  exact emittedPaths_resolvedTrees_congr hvalid hmodes hall hdefault
    (hvalid.mem_orderedModes.mpr hvalid.default_mem) rfl

/-- Where there is nothing to be found in all modes, there is nothing to be found in some of them,
as long as the default mode decides placement. -/
theorem Clean.restrict (h : Clean config layers config.orderedModes) (hvalid : config.Valid)
    (hmodes : selectModes config asked = .ok modes) (hdefault : config.defaultMode ∈ modes) :
    Clean config layers modes := by
  have hsub := sublist_of_selectModes hmodes
  refine ⟨?_, fun mode hmode => h.goesOn mode (hsub.subset hmode),
    fun mode hmode => h.resolved mode (hsub.subset hmode), ?_⟩
  · refine Cascade.coverageGaps_eq_nil_of_subset h.covered ?_
    rw [Cascade.composeAll_of_nodup layers hvalid.nodup_orderedModes,
      Cascade.composeAll_of_nodup layers (nodup_of_selectModes hvalid hmodes)]
    exact List.map_subset _ hsub.subset
  · unfold emittedPaths
    rw [emittedPaths_of_default_mem layers hvalid hmodes hdefault]
    exact h.named

/-! ## What is planned for fewer modes -/

/-- A build of some modes is the build of all modes, restricted to them. -/
structure Restricts (config : Config) (filter : List String) (full part : Planned) : Prop where
  trees : part.resolved = full.resolved.filter fun tree => filter.contains tree.1
  /-- The files of the full build, with one rule block per mode in every sheet. -/
  fullFiles : full.files = Css.filesOf config config.orderedModes (declareIn full.resolved)
    (Css.emittedPaths config full.resolved)
  /-- The files of the filtered build: the same sheets, with the same rule blocks, but only those of
  the selected modes. -/
  partFiles : part.files = Css.filesOf config (config.orderedModes.filter (filter.contains ·))
    (declareIn full.resolved) (Css.emittedPaths config full.resolved)
  paths : part.files.map (·.path) = full.files.map (·.path)
  indexes : part.files.filter (·.kind = .index) = full.files.filter (·.kind = .index)

/-- The trees of some of the modes are those that the modes have among all. -/
theorem resolved_planOf_filter (config : Config) (layers : List Layer) (chosen : String → Bool) :
    (planOf config layers (config.orderedModes.filter chosen)).resolved =
      (planOf config layers config.orderedModes).resolved.filter fun tree => chosen tree.1 := by
  unfold planOf Cascade.resolvedTrees
  simp only
  rw [List.filter_map]
  rfl

/-- The files of some of the modes declare what is declared of these modes among all; only the
sheets may be others. -/
theorem files_planOf_filter (layers : List Layer) (hvalid : config.Valid)
    (chosen : String → Bool) :
    (planOf config layers (config.orderedModes.filter chosen)).files =
      Css.filesOf config (config.orderedModes.filter chosen)
        (declareIn (Cascade.resolvedTrees layers config.orderedModes))
        (Css.emittedPaths config
          (Cascade.resolvedTrees layers (config.orderedModes.filter chosen))) := by
  unfold planOf
  -- A selected mode has the same tree in both builds; the other modes are not declared.
  refine Css.filesOf_congr fun mode hmode => declareIn_congr ?_
  rw [Cascade.get?_resolvedTrees layers (hvalid.nodup_orderedModes.filter _),
    Cascade.get?_resolvedTrees layers hvalid.nodup_orderedModes, if_pos hmode,
    if_pos (List.mem_filter.mp hmode).1]

/-- Some of the modes restrict the build of all modes if they have the same sheets. -/
theorem restricts_of_emittedPaths_eq {filter : List String} (layers : List Layer)
    (hvalid : config.Valid)
    (h : Css.emittedPaths config
        (Cascade.resolvedTrees layers (config.orderedModes.filter (filter.contains ·))) =
      Css.emittedPaths config (Cascade.resolvedTrees layers config.orderedModes)) :
    Restricts config filter (planOf config layers config.orderedModes)
      (planOf config layers (config.orderedModes.filter (filter.contains ·))) := by
  have hfiles := files_planOf_filter layers hvalid (filter.contains ·)
  rw [h] at hfiles
  refine ⟨resolved_planOf_filter config layers (filter.contains ·), rfl, hfiles, ?_, ?_⟩
  · rw [hfiles]
    unfold planOf
    rw [Css.paths_filesOf, Css.paths_filesOf]
  · rw [hfiles]
    unfold planOf
    rw [Css.indexes_filesOf, Css.indexes_filesOf]

theorem restricts_planOf {filter : List String} (layers : List Layer) (hvalid : config.Valid)
    (hknown : ∀ mode ∈ filter, mode ∈ config.modes) (hdefault : config.defaultMode ∈ filter) :
    Restricts config filter (planOf config layers config.orderedModes)
      (planOf config layers (config.orderedModes.filter (filter.contains ·))) := by
  have hmodes := selectModes_filtered (List.ne_nil_of_mem hdefault) hknown
  exact restricts_of_emittedPaths_eq layers hvalid
    (emittedPaths_of_default_mem layers hvalid hmodes (hvalid.default_mem_filter hdefault))

/-! ## Reaching formatting -/

variable {task : Task} {progress : Progress}

/-- A stage, with all that follow, that comes through or at least as far as formatting. -/
def Step.Formats {α : Type} (step : Step α) : Prop :=
  (∃ value, step.outcome = .ok value) ∨ step.progress.stage = .formatting

/-- What comes as far as formatting has gone on from every stage before. -/
theorem Step.Formats.goes_on {α β : Type} {step : Step α} {next : Progress → α → Step β}
    (h : (step.andThen next).Formats) (hstage : step.progress.stage ≠ .formatting) :
    ∃ value, step.andThen next = next step.progress value := by
  cases houtcome : step.outcome with
  | ok value => exact ⟨value, Step.andThen_of_ok houtcome⟩
  | error failure =>
    have hended : step.andThen next = ⟨.error failure, step.progress⟩ := by
      unfold Step.andThen
      rw [houtcome]
    rw [hended] at h
    rcases h with ⟨value, hvalue⟩ | hformatting
    · cases hvalue
    · exact absurd hformatting hstage

theorem stage_loading : (loading task progress).progress.stage = .loading := by
  unfold loading
  simp only
  split <;> rfl

theorem stage_composing {composed : ByMode TokenTree} :
    (composing task progress layers composed).progress.stage = .composing := by
  unfold composing
  simp only
  split <;> rfl

theorem stage_resolving {composed : ByMode TokenTree} :
    (resolving task progress composed).progress.stage = .resolving := by
  unfold resolving
  simp only
  split <;> rfl

theorem stage_naming {gathered : List BuildError} {resolved : ByMode ResolvedTree} :
    (naming task progress gathered resolved).progress.stage = progress.stage := by
  unfold naming
  simp only
  split
  · split <;> rfl
  · split <;> rfl

theorem stage_formatting {resolved : ByMode ResolvedTree}
    {identifiers : OrderedMap TokenPath String} :
    (formatting task progress resolved identifiers).progress.stage = .formatting := by
  unfold formatting
  simp only
  split <;> rfl

/-- A build that comes as far as formatting ends as formatting ends. -/
theorem Step.Formats.exists_formatting (h : (planning task progress).Formats)
    (hmodes : selectModes task.config task.options.modes = .ok modes) :
    ∃ formerly resolved identifiers,
      planning task progress = formatting task formerly resolved identifiers := by
  rw [planning_of_modes hmodes] at h ⊢
  obtain ⟨layers, hloaded⟩ := h.goes_on (by rw [stage_loading]; decide)
  rw [hloaded] at h ⊢
  unfold checking at h ⊢
  obtain ⟨gathered, hcomposed⟩ := h.goes_on (by rw [stage_composing]; decide)
  rw [hcomposed] at h ⊢
  obtain ⟨all, hresolved⟩ := h.goes_on (by rw [stage_resolving]; decide)
  rw [hresolved] at h ⊢
  obtain ⟨identifiers, hnamed⟩ := h.goes_on (by rw [stage_naming, stage_resolving]; decide)
  exact ⟨_, _, _, hnamed⟩

/-- Once there, all that a build can lack is an entry of a style sheet. -/
theorem Step.Formats.outcome_planning (h : (planning task progress).Formats)
    (hmodes : selectModes task.config task.options.modes = .ok modes) :
    (∃ planned, (planning task progress).outcome = .ok planned) ∨
      (planning task progress).outcome = .error (.breakdown .missingEntry) := by
  obtain ⟨formerly, resolved, identifiers, hformatting⟩ := h.exists_formatting hmodes
  rw [hformatting, outcome_formatting]
  unfold Css.files
  simp only
  split
  · exact .inr rfl
  · exact .inl ⟨_, rfl⟩

end Build

namespace Pipeline

variable {refuses : Output.Refusals} {pipeline : Pipeline} {config : Config} {detailed : Bool}
  {history : List (FileTree × Call)} {tree : FileTree} {options : BuildOptions}
  {modes : List String}

/-- A build reaches formatting: this is the stage at which its planning ends. -/
def ReachesFormatting (refuses : Output.Refusals) (pipeline : Pipeline) (tree : FileTree)
    (options : BuildOptions) : Prop :=
  (Build.planning (pipeline.task refuses tree options)
    (pipeline.start options)).progress.stage = .formatting

theorem reachesFormatting_of_plan_eq_ok {planned : Build.Planned}
    (h : pipeline.plan refuses tree options = .ok planned) :
    pipeline.ReachesFormatting refuses tree options := by
  obtain ⟨modes, hmodes, _⟩ := Build.planning_eq_ok_iff.mp h
  have hformats : (Build.planning (pipeline.task refuses tree options)
      (pipeline.start options)).Formats := .inl ⟨planned, h⟩
  obtain ⟨formerly, resolved, identifiers, hformatting⟩ := hformats.exists_formatting hmodes
  unfold ReachesFormatting
  rw [hformatting, Build.stage_formatting]

/-- A build reaches formatting exactly if its planning goes through. -/
theorem reachesFormatting_after_iff (hvalid : config.Valid)
    (hdiscernible : Discernible config history tree)
    (hmodes : Build.selectModes config options.modes = .ok modes) :
    ((new config .empty detailed).after history).ReachesFormatting refuses tree options ↔
      config.Loads tree ∧ Build.Clean config (config.freshLayers tree) modes := by
  constructor
  · intro h
    have hmodes' : Build.selectModes ((new config .empty detailed).after history).config
        options.modes = .ok modes := by
      rw [(settings_after hvalid detailed history).1, hmodes]
    have hformats : (Build.planning (((new config .empty detailed).after history).task refuses tree
        options) (((new config .empty detailed).after history).start options)).Formats := .inr h
    rcases hformats.outcome_planning hmodes' with ⟨planned, hplan⟩ | hmissing
    · obtain ⟨modes', hmodes', hloads, hclean, _⟩ :=
        (plan_after_eq_ok_iff hvalid hdiscernible).mp hplan
      rw [hmodes, Except.ok.injEq] at hmodes'
      rw [hmodes']
      exact ⟨hloads, hclean⟩
    · exact absurd hmissing Build.planning_ne_missingEntry
  · rintro ⟨hloads, hclean⟩
    exact reachesFormatting_of_plan_eq_ok
      ((plan_after_eq_ok_iff hvalid hdiscernible).mpr ⟨modes, hmodes, hloads, hclean, rfl⟩)

/-- A filter of configured modes that contains the default mode restricts a build: if the build of
all modes reaches formatting, so does the filtered one, whatever either pipeline has done before,
and it comes to the files of the full build, of which each sheet keeps just the rule blocks of the
selected modes.  Of a new pipeline, which has no history, nothing has to be known. -/
theorem filtered_build_restricts (config : Config) (detailed detailed' : Bool)
    (history history' : List (FileTree × Call)) (refuses refuses' : Output.Refusals)
    (tree : FileTree) (options options' : BuildOptions) (filter : List String)
    (hvalid : config.Valid) (hdiscernible : Discernible config history tree)
    (hdiscernible' : Discernible config history' tree)
    (hunfiltered : options.modes.getD [] = []) (hfilter : options'.modes = some filter)
    (hknown : ∀ mode ∈ filter, mode ∈ config.modes) (hdefault : config.defaultMode ∈ filter)
    (hreaches : ((new config .empty detailed).after history).ReachesFormatting refuses tree
      options) :
    ((new config .empty detailed').after history').ReachesFormatting refuses' tree options' ∧
      ∃ full part,
        ((new config .empty detailed).after history).plan refuses tree options = .ok full ∧
        ((new config .empty detailed').after history').plan refuses' tree options' = .ok part ∧
        Build.Restricts config filter full part := by
  have hall : Build.selectModes config options.modes = .ok config.orderedModes :=
    Build.selectModes_unfiltered config hunfiltered
  have hselected : Build.selectModes config options'.modes =
      .ok (config.orderedModes.filter (filter.contains ·)) := by
    rw [hfilter]
    exact Build.selectModes_filtered (List.ne_nil_of_mem hdefault) hknown
  obtain ⟨hloads, hclean⟩ := (reachesFormatting_after_iff hvalid hdiscernible hall).mp hreaches
  have hrestricted := hclean.restrict hvalid hselected (hvalid.default_mem_filter hdefault)
  have hfull : ((new config .empty detailed).after history).plan refuses tree options = .ok _ :=
    (plan_after_eq_ok_iff hvalid hdiscernible).mpr ⟨_, hall, hloads, hclean, rfl⟩
  have hpart : ((new config .empty detailed').after history').plan refuses' tree options' =
      .ok _ :=
    (plan_after_eq_ok_iff hvalid hdiscernible').mpr ⟨_, hselected, hloads, hrestricted, rfl⟩
  exact ⟨reachesFormatting_of_plan_eq_ok hpart, _, _, hfull, hpart,
    Build.restricts_planOf _ hvalid hknown hdefault⟩

theorem light_build_restricts_twoPalettes :
    let pipeline := (new .twoPalettes .empty false).after []
    let filtered := { BuildOptions.plain with modes := some ["light", "light"] }
    pipeline.ReachesFormatting Output.noRefusals ⟨[], [], 1⟩ .plain ∧
      pipeline.ReachesFormatting Output.noRefusals ⟨[], [], 1⟩ filtered ∧
      ∃ full part,
        pipeline.plan Output.noRefusals ⟨[], [], 1⟩ .plain = .ok full ∧
        pipeline.plan Output.noRefusals ⟨[], [], 1⟩ filtered = .ok part ∧
        Build.Restricts .twoPalettes ["light", "light"] full part := by
  have hreaches : ((new .twoPalettes .empty false).after []).ReachesFormatting Output.noRefusals
      ⟨[], [], 1⟩ .plain := by
    unfold ReachesFormatting
    decide +kernel
  exact ⟨hreaches, filtered_build_restricts .twoPalettes false false [] [] Output.noRefusals
    Output.noRefusals ⟨[], [], 1⟩ .plain _ ["light", "light"] Config.valid_twoPalettes
    (discernible_nil ..) (discernible_nil ..) rfl rfl (by decide) (by decide) hreaches⟩

end Pipeline

end DesignTokens
