import DesignTokens.Proofs.Build.Reuse
import DesignTokens.Proofs.Build.Sheets
/-!
# What is planned

Planning goes through exactly if the documents load and nothing is to be found in the built modes;
and then what is planned can be written down from the layers and the modes alone, whatever history
the pipeline has.
-/

set_option autoImplicit false

namespace DesignTokens

namespace Build

variable {config : Config} {asked : Option (List String)} {modes : List String}
  {layers : List Layer}

/-! ## Nothing to be found -/

/-- There is nothing to be found in some modes of loaded layers: they have the same paths, every
mode is resolved without an error and without breaking down, and no names collide. -/
structure Clean (config : Config) (layers : List Layer) (modes : List String) : Prop where
  covered : Cascade.coverageGaps (Cascade.composeAll layers modes) = []
  goesOn : ∀ mode ∈ modes, (Cascade.resolution layers mode).stopped = none
  resolved : ∀ mode ∈ modes, (Cascade.resolution layers mode).errors = []
  named : (Claims.ofPaths
    (emittedPaths config (Cascade.resolvedTrees layers modes))).collisions = []

/-- Resolving goes through all modes exactly if it does through each of them. -/
theorem stopped_gathering_eq_none_iff_each (detailed : Bool) {cache : ResolutionCache}
    (hmodes : modes.Nodup) :
    (gathering detailed cache layers modes).stopped = none ↔
      ∀ mode ∈ modes, (Cascade.resolution layers mode).stopped = none := by
  rw [stopped_gathering_eq_none_iff, Cascade.withinDigits_iff,
    Cascade.composeAll_of_nodup layers hmodes, List.forall_mem_map]
  refine forall₂_congr fun mode _ => ⟨fun h => ?_, ?_⟩
  · exact ResolutionCache.stopped_resolve_true h .empty mode
  · exact ResolutionCache.isRenderable_of_stopped_eq_none

theorem clean_iff (config : Config) (detailed : Bool) (hmodes : modes.Nodup) :
    Clean config layers modes ↔ (gathering detailed .empty layers modes).stopped = none ∧
      findings config detailed .empty layers modes = [] := by
  constructor
  · intro h
    have hstopped : (gathering detailed .empty layers modes).stopped = none :=
      (stopped_gathering_eq_none_iff_each detailed hmodes).mpr h.goesOn
    obtain ⟨hresolved, herrors⟩ := gathering_eq detailed hmodes (remembers_empty layers modes)
      (stopped_gathering_eq_none_iff.mp hstopped)
    refine ⟨hstopped, ?_⟩
    unfold findings
    rw [collisions_of_stopped_eq_none hstopped, claiming, hresolved, herrors, h.covered, h.named,
      List.flatMap_eq_nil_iff.mpr h.resolved]
    rfl
  · rintro ⟨hstopped, hfindings⟩
    obtain ⟨hresolved, herrors⟩ := gathering_eq detailed hmodes (remembers_empty layers modes)
      (stopped_gathering_eq_none_iff.mp hstopped)
    obtain ⟨hcovered, hnone, hnamed⟩ := findings_eq_nil hstopped hfindings
    rw [claiming, hresolved] at hnamed
    rw [herrors, List.flatMap_eq_nil_iff] at hnone
    exact ⟨hcovered, (stopped_gathering_eq_none_iff_each detailed hmodes).mp hstopped, hnone, hnamed⟩

/-- What is planned for some modes of loaded layers. -/
def planOf (config : Config) (layers : List Layer) (modes : List String) : Planned :=
  let trees := Cascade.resolvedTrees layers modes
  ⟨trees, Css.filesOf config modes (declareIn trees) (Css.emittedPaths config trees)⟩

/-- If there is nothing to be found, planning goes through. -/
theorem Clean.plan_eq (h : Clean config layers modes) (hvalid : config.Valid)
    (hmodes : selectModes config asked = .ok modes) (detailed : Bool) :
    plan config detailed .empty layers modes = .ok (planOf config layers modes) := by
  have hnodup := nodup_of_selectModes hvalid hmodes
  obtain ⟨hstopped, hfindings⟩ := (clean_iff config detailed hnodup).mp h
  obtain ⟨⟨trees, files⟩, hplan⟩ := exists_plan_of_findings_eq_nil hstopped hfindings
  obtain ⟨_, htrees, hfiles⟩ := plan_eq_ok_iff.mp hplan
  have hgathered := (gathering_eq detailed hnodup (remembers_empty layers modes)
    (stopped_gathering_eq_none_iff.mp hstopped)).1
  unfold claiming at hfiles
  simp only at htrees hfiles
  rw [hgathered] at htrees hfiles
  -- That something is planned is known by now; the files can only be those of the trees.
  have hwritten := files_eq_of_files_eq_ok h.named hfiles
  rw [builtModes_eq hmodes (Cascade.keys_resolvedTrees layers modes)] at hwritten
  rw [hplan, htrees, hwritten]
  rfl

/-- Modes that include the default one are placed by its tree. -/
theorem placementTree_resolvedTrees (layers : List Layer) (hvalid : config.Valid)
    (hmodes : selectModes config asked = .ok modes) (hdefault : config.defaultMode ∈ modes) :
    Css.placementTree config (Cascade.resolvedTrees layers modes) =
      (Cascade.resolution layers config.defaultMode).resolved := by
  have hnodup := nodup_of_selectModes hvalid hmodes
  rw [placementTree_of_selectModes hmodes (Cascade.keys_resolvedTrees layers modes),
    Cascade.get?_resolvedTrees layers hnodup, placementMode, if_pos hdefault, if_pos hdefault,
    Option.getD_some]

/-- Modes that include the default one are placed alike if it resolves alike, whichever others are
built. -/
theorem emittedPaths_resolvedTrees_congr {asked' : Option (List String)} {modes' : List String}
    {layers' : List Layer} (hvalid : config.Valid) (hmodes : selectModes config asked = .ok modes)
    (hmodes' : selectModes config asked' = .ok modes') (hdefault : config.defaultMode ∈ modes)
    (hdefault' : config.defaultMode ∈ modes')
    (h : Cascade.resolution layers config.defaultMode =
      Cascade.resolution layers' config.defaultMode) :
    Css.emittedPaths config (Cascade.resolvedTrees layers modes) =
      Css.emittedPaths config (Cascade.resolvedTrees layers' modes') := by
  refine Css.emittedPaths_congr ?_
  rw [placementTree_resolvedTrees layers hvalid hmodes hdefault,
    placementTree_resolvedTrees layers' hvalid hmodes' hdefault', h]

/-- A declaration depends on the tree of its mode alone. -/
theorem declareIn_congr {trees trees' : Css.ResolvedModes} {mode : String}
    (h : OrderedMap.get? trees mode = OrderedMap.get? trees' mode) :
    declareIn trees mode = declareIn trees' mode := by
  unfold declareIn
  rw [h]

/-! ## Selected modes -/

/-- No filter and an empty one select all modes. -/
theorem selectModes_unfiltered (config : Config) (h : asked.getD [] = []) :
    selectModes config asked = .ok config.orderedModes := by
  cases asked with
  | none => rfl
  | some modes =>
    rw [Option.getD_some] at h
    rw [h]
    rfl

/-- A filter of known modes selects these, in the order of the settings. -/
theorem selectModes_filtered {filter : List String} (hne : filter ≠ [])
    (hknown : ∀ mode ∈ filter, mode ∈ config.modes) :
    selectModes config (some filter) = .ok (config.orderedModes.filter (filter.contains ·)) := by
  have hnone : (filter.find? fun mode => !config.modes.contains mode) = none := by
    rw [List.find?_eq_none]
    intro mode hmode
    simpa using hknown mode hmode
  unfold selectModes
  split
  · rename_i hasked
    cases hasked
  · rename_i hasked
    cases hasked
    exact absurd rfl hne
  · rename_i hasked
    cases hasked
    rw [hnone]

end Build

/-! ## From the files -/

namespace Pipeline

variable {config : Config} {detailed : Bool} {history : List (FileTree × Call)} {tree : FileTree}
  {refuses : Output.Refusals} {options : BuildOptions} {planned : Build.Planned}

/-- A pipeline with a discernible history plans what the files alone decide. -/
theorem plan_after_eq_ok_iff (hvalid : config.Valid)
    (hdiscernible : Discernible config history tree) :
    ((new config .empty detailed).after history).plan refuses tree options = .ok planned ↔
      ∃ modes, Build.selectModes config options.modes = .ok modes ∧ config.Loads tree ∧
        Build.Clean config (config.freshLayers tree) modes ∧
        planned = Build.planOf config (config.freshLayers tree) modes := by
  rw [plan_after hvalid hdiscernible]
  constructor
  · intro hplan
    obtain ⟨modes, hmodes, hstopped, herrors, hfindings, hplanned⟩ :=
      Build.planning_eq_ok_iff.mp hplan
    have hnodup := Build.nodup_of_selectModes hvalid hmodes
    have hclean := (Build.clean_iff config _ hnodup).mpr
      ⟨(Build.plan_eq_ok_iff.mp hplanned).1, hfindings⟩
    have hclosed := hclean.plan_eq hvalid hmodes (options.verbose || detailed)
    exact ⟨modes, hmodes, ⟨hstopped, herrors⟩, hclean, Except.ok.inj (hplanned.symm.trans hclosed)⟩
  · rintro ⟨modes, hmodes, hloads, hclean, rfl⟩
    have hnodup := Build.nodup_of_selectModes hvalid hmodes
    have hfindings := ((Build.clean_iff config (options.verbose || detailed) hnodup).mp hclean).2
    exact Build.planning_eq_ok_iff.mpr ⟨modes, hmodes, hloads.stopped, hloads.errors, hfindings,
      hclean.plan_eq hvalid hmodes _⟩

end Pipeline

end DesignTokens
