import DesignTokens.Proofs.Build.Counters
import DesignTokens.Proofs.Build.LookUps
/-!
# What a dry run counts

A dry run that comes past loading counts what there is to find: the paths that lead to no literal,
the cycles, the gaps of coverage and the collisions of identifiers, each over all built modes,
unless some mode has an integer with too many digits.  If layers fail to load, it counts nothing,
and lists a fault for each of them, unless one of them breaks down.
-/

set_option autoImplicit false

namespace DesignTokens

/-! ## Layers that fail alone -/

/-- The failures of the layers that fail to load alone, in the order of the layers. -/
def Config.loadFailures (config : Config) (tree : FileTree) : List Failure :=
  (Store.new config.dataDir).failures tree config.layers

/-- A layer of settings that are used fails by a fault of its document or by breaking down. -/
theorem Config.Valid.fault_or_breakdown {config : Config} (hvalid : config.Valid) {tree : FileTree}
    {failure : Failure} (h : failure ∈ config.loadFailures tree) :
    failure.isFault = true ∨ ∃ cause, failure = .breakdown cause := by
  obtain ⟨source, hsource, hfresh⟩ := List.mem_filterMap.mp h
  obtain ⟨identifier, hdocument⟩ := Store.loadLayer_ofDocument (hvalid.origins source hsource)
    (Store.failure?_eq_some_iff.mp hfresh)
  cases hdocument with
  | fault fault place => exact .inl rfl
  | breakdown _ => exact .inr ⟨_, rfl⟩

namespace Pipeline

open Build

variable {config : Config} {detailed : Bool} {files : List FileTree} {pipeline : Pipeline}
  {tree : FileTree} {refuses : Output.Refusals} {options : BuildOptions} {modes : List String}
  {answer : Answer Report} {report : Report}

/-- What a load with true documents finds are the failures of the layers that fail alone: faults up
to the first that breaks down. -/
theorem TrueTo.load_fails (h : TrueTo config detailed files pipeline) (htree : tree ∈ files) :
    (Store.load true tree pipeline.store config.layers).errors.map Failure.error =
        (config.loadFailures tree).takeWhile Failure.isFault ∧
      (Store.load true tree pipeline.store config.layers).stopped =
        (config.loadFailures tree).find? fun failure => !failure.isFault := by
  have hfails := Store.load_fails pipeline.store tree config.layers
  rwa [(h.upToDate.documents.readsAlike htree).failures_eq, h.upToDate.dataDir_eq] at hfails

/-- Where all layers load, a load with true documents gives them. -/
theorem TrueTo.load_of_no_failure (h : TrueTo config detailed files pipeline)
    (hlegible : config.Legible files) (htree : tree ∈ files)
    (hfailures : config.loadFailures tree = []) :
    (Store.load true tree pipeline.store config.layers).stopped = none ∧
      (Store.load true tree pipeline.store config.layers).errors = [] ∧
      (Store.load true tree pipeline.store config.layers).layers = config.freshLayers tree := by
  obtain ⟨herrors, hstopped⟩ := h.load_fails htree
  rw [hfailures, List.takeWhile_nil, List.map_eq_nil_iff] at herrors
  rw [hfailures, List.find?_nil] at hstopped
  exact ⟨hstopped, herrors, (h.upToDate.load_alike hlegible.dated htree true).layers⟩

/-! ## Past loading -/

/-- A dry run that came past loading counts what there is to find in the built modes, and lists it
kind by kind. -/
structure CountsFindings (config : Config) (layers : List Layer) (modes : List String)
    (answer : Answer Report) (report : Report) : Prop where
  stages : [.loading, .composing, .resolving] <+: stagesEntered answer.log
  unresolved : (Cascade.lost layers modes).encard = report.unresolvedTokens
  cycles : Cascade.cycles layers modes = report.cycleDetections
  gaps : report.coverageMismatches = (collected config layers modes).countP Report.isCoverageGap
  collisions : report.collisions = (collected config layers modes).countP Report.isCollision
  errors : report.errors = (collected config layers modes).map BuildError.message
  result : answer.result = if (collected config layers modes).isEmpty then .ok report
    else .error (.collected (collected config layers modes))

/-- What is counted and listed depends on the layers and the modes alone. -/
theorem CountsFindings.report_eq {layers : List Layer} {answer' : Answer Report} {report' : Report}
    (h : CountsFindings config layers modes answer report)
    (h' : CountsFindings config layers modes answer' report') :
    report.counters = report'.counters ∧ report.errors = report'.errors := by
  refine ⟨?_, h.errors.trans h'.errors.symm⟩
  unfold Report.counters
  rw [Report.Counters.mk.injEq]
  exact ⟨h.gaps.trans h'.gaps.symm, Nat.cast_inj.mp (h.unresolved.symm.trans h'.unresolved),
    Nat.cast_inj.mp (h.cycles.symm.trans h'.cycles), h.collisions.trans h'.collisions.symm⟩

/-- The last report of a run. -/
def finalReport (refuses : Output.Refusals) (pipeline : Pipeline) (tree : FileTree)
    (options : BuildOptions) : Report :=
  (settle (stages (pipeline.task refuses tree options) (pipeline.start options))).report

theorem lastReport_runUnder (refuses : Output.Refusals) (pipeline : Pipeline) (tree : FileTree)
    (options : BuildOptions) : (pipeline.runUnder refuses tree options).pipeline.lastReport =
      some (pipeline.finalReport refuses tree options) :=
  rfl

/-- A run that succeeds returns its last report. -/
theorem result_runUnder_of_ok {planned : Planned}
    (h : (stages (pipeline.task refuses tree options) (pipeline.start options)).outcome =
      .ok planned) :
    (pipeline.runUnder refuses tree options).result =
      .ok (pipeline.finalReport refuses tree options) := by
  unfold runUnder buildUnder finalReport
  simp only [h]
  rfl

/-- Layers that all load are counted for what there is to find in them. -/
theorem TrueTo.countsFindings (h : TrueTo config detailed files pipeline) (hvalid : config.Valid)
    (hlegible : config.Legible files) (htree : tree ∈ files) (hdry : options.dryRun = true)
    (hmodes : selectModes config options.modes = .ok modes)
    (hfailures : config.loadFailures tree = [])
    (hwithin : Cascade.WithinDigits (Cascade.composeAll (config.freshLayers tree) modes)) :
    CountsFindings config (config.freshLayers tree) modes
      (pipeline.runUnder refuses tree options) (pipeline.finalReport refuses tree options) := by
  obtain ⟨hstopped, herrors, hlayers⟩ := h.load_of_no_failure hlegible htree hfailures
  have hmemo := h.remembers hlegible htree modes
  rw [hlayers] at hmemo
  have hnodup := nodup_of_selectModes hvalid hmodes
  have hends := ends_runUnder refuses pipeline tree options
  have hconfig := h.upToDate.config_eq
  subst hconfig
  obtain ⟨⟨planned, houtcome⟩, ⟨later, htraced⟩, hcounters⟩ :=
    stages_of_loaded (pipeline.task refuses tree options) (pipeline.start options) hdry hvalid
      hmodes hstopped herrors hlayers hwithin hmemo (traced_start pipeline options)
  rw [show (pipeline.task refuses tree options).config = pipeline.config from rfl] at houtcome
  have hcounts : (pipeline.finalReport refuses tree options).counters = _ := hcounters
  constructor
  case stages =>
    rw [stagesEntered_log_runUnder, htraced.log]
    exact List.prefix_append _ _
  case unresolved =>
    rw [encard_lost _ hnodup hmemo hwithin]
    exact congrArg Nat.cast (congrArg Report.Counters.unresolved hcounts).symm
  case cycles =>
    rw [encard_cycles _ hnodup hmemo hwithin]
    exact congrArg Nat.cast (congrArg Report.Counters.cycles hcounts).symm
  case gaps =>
    rw [countP_isCoverageGap_collected]
    exact congrArg Report.Counters.gaps hcounts
  case collisions =>
    rw [countP_isCollision_collected, ← (gathering_eq _ hnodup hmemo hwithin).1]
    exact congrArg Report.Counters.collisions hcounts
  case errors =>
    split at houtcome
    · rename_i hempty
      rw [List.isEmpty_iff.mp hempty]
      exact (hends.succeeded _ (result_runUnder_of_ok houtcome)).2.2.1
    · exact (hends.failed _ (result_runUnder_eq_error_iff.mpr houtcome) nofun).2.1
  case result =>
    split at houtcome
    · rename_i hempty
      rw [if_pos hempty]
      exact result_runUnder_of_ok houtcome
    · rename_i hempty
      rw [if_neg hempty]
      exact result_runUnder_eq_error_iff.mpr houtcome

/-! ## Integers with too many digits -/

/-- A dry run that came past loading to a tree without a fingerprint breaks down while it resolves.
It lists nothing, whatever it has found before. -/
structure BreaksResolving (answer : Answer Report) (report : Report) : Prop where
  stages : stagesEntered answer.log = [.loading, .composing, .resolving]
  stage : report.stage = .resolving
  errors : report.errors = []
  result : answer.result = .error (.breakdown .integerTooLong)

/-- Layers that all load are not counted if some mode has an integer with too many digits. -/
theorem TrueTo.breaksResolving (h : TrueTo config detailed files pipeline)
    (hlegible : config.Legible files) (htree : tree ∈ files) (hdry : options.dryRun = true)
    (hmodes : selectModes config options.modes = .ok modes)
    (hfailures : config.loadFailures tree = [])
    (hbeyond : ¬ Cascade.WithinDigits (Cascade.composeAll (config.freshLayers tree) modes)) :
    BreaksResolving (pipeline.runUnder refuses tree options)
      (pipeline.finalReport refuses tree options) := by
  obtain ⟨hstopped, herrors, hlayers⟩ := h.load_of_no_failure hlegible htree hfailures
  have hends := ends_runUnder refuses pipeline tree options
  have hconfig := h.upToDate.config_eq
  subst hconfig
  obtain ⟨houtcome, htraced⟩ := stages_of_beyond (pipeline.task refuses tree options)
    (pipeline.start options) hdry hmodes hstopped herrors hlayers hbeyond
    (traced_start pipeline options)
  have hresult : (pipeline.runUnder refuses tree options).result =
      .error (.breakdown .integerTooLong) :=
    result_runUnder_eq_error_iff.mpr houtcome
  obtain ⟨_, hnone, _, hlast⟩ := hends.brokeDown _ hresult
  have hstages : stagesEntered (pipeline.runUnder refuses tree options).log =
      [.loading, .composing, .resolving] :=
    (stagesEntered_log_runUnder refuses pipeline tree options).trans htraced.log
  rw [hstages] at hlast
  exact ⟨hstages, (Option.some.inj hlast).symm, hnone, hresult⟩

/-! ## Failing to load -/

/-- A dry run that failed to load some layers counts nothing.  It lists one fault for each of them;
but if some break down, it lists nothing and ends as the first of these does. -/
structure ListsFaults (failures : List Failure) (answer : Answer Report) (report : Report) :
    Prop where
  stages : stagesEntered answer.log = [.loading]
  counters : report.counters = ⟨0, 0, 0, 0⟩
  faults : (∀ cause, .breakdown cause ∉ failures) → ∃ faults,
    failures = faults.map Failure.error ∧ report.errors = faults.map BuildError.message ∧
      answer.result = .error (.collected faults)
  breakdown : ∀ cause, .breakdown cause ∈ failures → report.errors = [] ∧
    ∃ first, failures.find? (fun failure => !failure.isFault) = some (.breakdown first) ∧
      answer.result = .error (.breakdown first)

/-- A dry run that fails to load ends with what stops loading, and counts nothing. -/
theorem runUnder_of_loading_error (hdry : options.dryRun = true)
    (hmodes : selectModes pipeline.config options.modes = .ok modes) {failure : Failure}
    (hloading : (loading (pipeline.task refuses tree options) (pipeline.start options)).outcome =
      .error failure)
    (hfaults : ∀ e ∈ failure.errors, Failure.isFault (.error e)) :
    (pipeline.runUnder refuses tree options).result = .error failure ∧
      stagesEntered (pipeline.runUnder refuses tree options).log = [.loading] ∧
      (pipeline.finalReport refuses tree options).counters = ⟨0, 0, 0, 0⟩ := by
  have hcovers : (pipeline.start options).report.counters.Covers failure.errors :=
    Report.Counters.covers_of_faults _ hfaults
  obtain ⟨houtcome, hprogress, hcounters⟩ := stages_of_loading_error
    (pipeline.task refuses tree options) (pipeline.start options) hdry hmodes hloading hcovers
  refine ⟨result_runUnder_eq_error_iff.mpr houtcome, ?_, hcounters⟩
  rw [stagesEntered_log_runUnder, hprogress]
  exact (traced_loading (traced_start pipeline options)).log

/-- What stops loading if layers fail: the first that breaks down, or else the faults of all of
them. -/
inductive Stops (failures : List Failure) : Failure → Prop
  | breakdown (cause : Breakdown)
      (hfirst : failures.find? (fun failure => !failure.isFault) = some (.breakdown cause)) :
      Stops failures (.breakdown cause)
  | faults (faults : List BuildError) (hfailures : failures = faults.map Failure.error)
      (hfault : ∀ e ∈ faults, Failure.isFault (.error e)) : Stops failures (.collected faults)

theorem TrueTo.loading_stops (h : TrueTo config detailed files pipeline) (hvalid : config.Valid)
    (htree : tree ∈ files) (hdry : options.dryRun = true)
    (hfailures : config.loadFailures tree ≠ []) :
    ∃ failure, Stops (config.loadFailures tree) failure ∧
      (loading (pipeline.task refuses tree options) (pipeline.start options)).outcome =
        .error failure := by
  obtain ⟨herrors, hstopped⟩ := h.load_fails htree
  have hconfig := h.upToDate.config_eq
  subst hconfig
  have hload : Store.load (pipeline.task refuses tree options).options.dryRun tree
      pipeline.store pipeline.config.layers =
        Store.load true tree pipeline.store pipeline.config.layers :=
    congrArg (Store.load · tree pipeline.store pipeline.config.layers) hdry
  have hloading : (loading (pipeline.task refuses tree options) (pipeline.start options)).outcome =
      _ := outcome_loading hload
  cases hfirst : (pipeline.config.loadFailures tree).find? fun failure => !failure.isFault with
  | some failure =>
    obtain ⟨cause, rfl⟩ : ∃ cause, failure = .breakdown cause := by
      refine (hvalid.fault_or_breakdown (List.mem_of_find?_eq_some hfirst)).resolve_left ?_
      simpa using List.find?_some hfirst
    rw [hstopped, hfirst] at hloading
    exact ⟨_, .breakdown cause hfirst, hloading⟩
  | none =>
    have hall : ∀ failure ∈ pipeline.config.loadFailures tree, failure.isFault = true := by
      simpa using List.find?_eq_none.mp hfirst
    rw [List.takeWhile_eq_self_iff.mpr hall] at herrors
    rw [hstopped, hfirst] at hloading
    generalize (Store.load true tree pipeline.store pipeline.config.layers).errors = faults at *
    cases faults with
    | nil => exact absurd herrors.symm hfailures
    | cons first others =>
      refine ⟨_, .faults (first :: others) herrors.symm fun e he => ?_, hloading⟩
      exact hall _ (herrors ▸ List.mem_map_of_mem he)

/-- Layers that fail to load are listed, unless one of them breaks down. -/
theorem TrueTo.listsFaults (h : TrueTo config detailed files pipeline) (hvalid : config.Valid)
    (htree : tree ∈ files) (hdry : options.dryRun = true)
    (hmodes : selectModes config options.modes = .ok modes)
    (hfailures : config.loadFailures tree ≠ []) :
    ListsFaults (config.loadFailures tree) (pipeline.runUnder refuses tree options)
      (pipeline.finalReport refuses tree options) := by
  have hends := ends_runUnder refuses pipeline tree options
  obtain ⟨failure, hstops, hloading⟩ := h.loading_stops hvalid htree hdry hfailures
  rw [← h.upToDate.config_eq] at hmodes
  cases hstops with
  | breakdown first hfirst =>
    obtain ⟨hresult, hstages, hcounters⟩ := runUnder_of_loading_error hdry hmodes hloading
      fun _ hmem => absurd hmem List.not_mem_nil
    have hmem := List.mem_of_find?_eq_some hfirst
    refine ⟨hstages, hcounters, fun hnone => absurd hmem (hnone first), fun _ _ => ?_⟩
    exact ⟨(hends.brokeDown first hresult).2.1, first, hfirst, hresult⟩
  | faults faults hfaults hfault =>
    obtain ⟨hresult, hstages, hcounters⟩ := runUnder_of_loading_error hdry hmodes hloading hfault
    refine ⟨hstages, hcounters, fun _ => ?_, fun cause hcause => ?_⟩
    · exact ⟨faults, hfaults, (hends.failed _ hresult nofun).2.1, hresult⟩
    · rw [hfaults] at hcause
      obtain ⟨_, _, hbreakdown⟩ := List.mem_map.mp hcause
      cases hbreakdown

/-! ## Any dry run -/

/-- A dry run of known modes counts exactly what there is to find, after whatever calls.  If all
layers load and no mode has an integer with too many digits, it counts the paths of the built modes
whose references lead to no literal, the cycles of each mode, and the gaps of coverage and the
collisions that it has collected, and it lists all that it has collected: the gaps, what cannot be
resolved in one mode after the other, the collisions.  With such an integer it breaks down while it
resolves, and lists nothing.  If some layers fail to load, it counts nothing and lists one fault for
each of them, unless one of them breaks down. -/
theorem dry_run_counts (config : Config) (detailed : Bool) (history : List (FileTree × Call))
    (refuses : Output.Refusals) (tree : FileTree) (options : BuildOptions) (modes : List String)
    (hvalid : config.Valid) (hlegible : history ≠ [] → config.Legible (tree :: history.map (·.1)))
    (hdry : options.dryRun = true) (hmodes : selectModes config options.modes = .ok modes) :
    let answer := ((new config .empty detailed).after history).runUnder refuses tree options
    ∃ report, answer.pipeline.lastReport = some report ∧
      (config.loadFailures tree = [] →
        Cascade.WithinDigits (Cascade.composeAll (config.freshLayers tree) modes) →
          CountsFindings config (config.freshLayers tree) modes answer report) ∧
      (config.loadFailures tree = [] →
        ¬ Cascade.WithinDigits (Cascade.composeAll (config.freshLayers tree) modes) →
          BreaksResolving answer report) ∧
      (config.loadFailures tree ≠ [] →
        ListsFaults (config.loadFailures tree) answer report) := by
  have hfiles : config.Legible (tree :: history.map (·.1)) := by
    by_cases hnone : history = []
    · rw [hnone]
      exact config.legible_singleton tree
    · exact hlegible hnone
  have hused : TrueTo config detailed (tree :: history.map (·.1))
      ((new config .empty detailed).after history) := by
    refine (trueTo_new config detailed _).after hvalid hfiles fun made hmade => ?_
    exact List.mem_cons_of_mem _ (List.mem_map_of_mem hmade)
  refine ⟨_, lastReport_runUnder _ _ _ _, ?_, ?_, ?_⟩
  · exact hused.countsFindings hvalid hfiles List.mem_cons_self hdry hmodes
  · exact hused.breaksResolving hfiles List.mem_cons_self hdry hmodes
  · exact hused.listsFaults hvalid List.mem_cons_self hdry hmodes

end Pipeline

/-- Settings of two modes with a cycle, a reference into it, a broken reference, a token that one
mode lacks, and two tokens with one identifier. -/
def Config.tangled : Config :=
  { theme := "brand"
    dataDir := ⟨.root, ["tokens"]⟩
    outputDir := ⟨.root, ["out"]⟩
    modes := ["light", "dark"]
    defaultMode := "light"
    layers := [
      { name := "base", source := none
        data := some [
          (.str "a", .map [(.str "value", .str "\x7bb\x7d")]),
          (.str "b", .map [(.str "value", .str "\x7ba\x7d")]),
          (.str "c", .map [(.str "value", .str "\x7ba\x7d")]),
          (.str "d", .map [(.str "value", .str "\x7bx\x7d")]),
          (.str "e-f", .map [(.str "value", .int 1)]),
          (.str "e", .map [(.str "f", .map [(.str "value", .int 2)])])]
        mode := none, group := "tokens", emit := true, skippable := false },
      { name := "night", source := none
        data := some [(.str "g", .map [(.str "value", .int 3)])]
        mode := some "dark", group := "tokens", emit := true, skippable := false }]
    indexImports := []
    minify := false }

theorem Config.valid_tangled : Config.tangled.Valid where
  modes_nodup := by decide
  modes_not_blank := by decide
  default_mem := by decide
  names_nodup := by decide
  origins := by
    intro layer hlayer
    right
    revert layer
    decide
  layer_modes := by decide
  index_free := by decide

/-- A tree without any file. -/
def FileTree.bare : FileTree :=
  ⟨[], [], 1⟩

theorem Config.loadFailures_tangled : Config.tangled.loadFailures .bare = [] :=
  List.isEmpty_iff.mp (by decide +kernel)

theorem Config.withinDigits_tangled : Cascade.WithinDigits
    (Cascade.composeAll (Config.tangled.freshLayers .bare) ["light", "dark"]) := by
  rw [Cascade.withinDigits_iff]
  decide +kernel

/-- Settings are valid also if a literal has too many digits. -/
theorem Config.valid_longLiteral : Config.longLiteral.Valid where
  modes_nodup := by decide
  modes_not_blank := by decide
  default_mem := by decide
  names_nodup := by decide
  origins := by
    intro layer hlayer
    cases List.mem_singleton.mp hlayer
    exact .inr rfl
  layer_modes := by decide
  index_free := by decide

theorem Config.not_withinDigits_longLiteral (tree : FileTree) : ¬ Cascade.WithinDigits
    (Cascade.composeAll (Config.longLiteral.freshLayers tree) ["light"]) := by
  intro h
  rw [Cascade.composeAll_of_nodup _ (List.nodup_singleton _)] at h
  have htree := h _ (List.mem_map_of_mem (List.mem_singleton_self "light"))
  rw [compose_longLiteral] at htree
  exact ResolutionCache.not_withinDigits_longTree htree

theorem Config.legible_tangled : Config.tangled.Legible [.bare, .bare] := by
  have hloads : Config.tangled.Loads .bare :=
    ⟨Option.isNone_iff_eq_none.mp (by decide +kernel), List.isEmpty_iff.mp (by decide +kernel)⟩
  refine Config.legible_of_sameAt (fun tree htree => ?_) fun _ _ _ _ path hpath => ?_
  · simp only [List.mem_cons, List.not_mem_nil, or_false, or_self] at htree
    exact htree ▸ hloads
  · have hnone : Config.tangled.documentPaths = [] := rfl
    rw [hnone] at hpath
    cases hpath

namespace Pipeline

open Build

/-- After a build that failed, the dry run counts four paths and a cycle in either mode, one gap and
one collision.  Where the only document is missing, it lists this.  Where the only literal has too
many digits, it lists nothing. -/
theorem dry_run_counts_tangled :
    let options := { BuildOptions.plain with dryRun := true }
    let used := (new .tangled .empty false).after [(.bare, .build Output.noRefusals .plain)]
    let answer := used.runUnder Output.noRefusals .bare options
    let missing := (new .oneDocument .empty false).runUnder Output.noRefusals .bare options
    let long := (new .longLiteral .empty false).runUnder Output.noRefusals .bare options
    Config.tangled.Valid ∧ Config.oneDocument.Valid ∧ Config.tangled.Legible [.bare, .bare] ∧
      selectModes .tangled options.modes = .ok ["light", "dark"] ∧
      selectModes .oneDocument options.modes = .ok ["light"] ∧
      (∃ report, answer.pipeline.lastReport = some report ∧ CountsFindings .tangled
        (Config.tangled.freshLayers .bare) ["light", "dark"] answer report ∧
        report.counters = ⟨1, 8, 2, 1⟩ ∧ report.errors.length = 6) ∧
      (∃ report, missing.pipeline.lastReport = some report ∧
        report.errors = ["Malformed token document 'base.json': document not found"]) ∧
      ∃ report, long.pipeline.lastReport = some report ∧ BreaksResolving long report := by
  intro options used answer missing long
  have hmodes : selectModes .tangled options.modes = .ok ["light", "dark"] := rfl
  have hmodes' : selectModes .oneDocument options.modes = .ok ["light"] := rfl
  obtain ⟨first, hfirst, hcounted, _⟩ := dry_run_counts .tangled false [] Output.noRefusals .bare
    options ["light", "dark"] Config.valid_tangled (absurd rfl) rfl hmodes
  obtain ⟨report, hreport, hcounts, _⟩ := dry_run_counts .tangled false
    [(.bare, .build Output.noRefusals .plain)] Output.noRefusals .bare options ["light", "dark"]
    Config.valid_tangled (fun _ => Config.legible_tangled) rfl hmodes
  obtain ⟨report', hreport', _, _, hlists⟩ := dry_run_counts .oneDocument false [] Output.noRefusals
    .bare options ["light"] Config.valid_oneDocument (absurd rfl) rfl hmodes'
  obtain ⟨last, hlast, _, hbreaks, _⟩ := dry_run_counts .longLiteral false [] Output.noRefusals
    .bare options ["light"] Config.valid_longLiteral (absurd rfl) rfl rfl
  have hfresh : (((new .tangled .empty false).runUnder Output.noRefusals .bare
      options).pipeline.lastReport.map fun report => (report.counters, report.errors.length)) =
        some (⟨1, 8, 2, 1⟩, 6) := by
    decide +kernel
  have hagain := hcounts Config.loadFailures_tangled Config.withinDigits_tangled
  obtain ⟨hcounters, herrors⟩ :=
    hagain.report_eq (hcounted Config.loadFailures_tangled Config.withinDigits_tangled)
  rw [show (new .tangled .empty false).after [] = new .tangled .empty false from rfl] at hfirst
  rw [hfirst, Option.map_some, Option.some.injEq, Prod.mk.injEq, ← hcounters, ← herrors] at hfresh
  have hmissing : Config.oneDocument.loadFailures .bare =
      [.error (.document "base.json" .notFound .unknown)] := rfl
  rw [hmissing] at hlists
  obtain ⟨faults, hfaults, hlisted, _⟩ := (hlists (List.cons_ne_nil _ _)).faults (by simp)
  refine ⟨Config.valid_tangled, Config.valid_oneDocument, Config.legible_tangled, hmodes, hmodes',
    ⟨report, hreport, hagain, hfresh⟩, ⟨report', hreport', ?_⟩, last, hlast,
    hbreaks rfl (Config.not_withinDigits_longLiteral .bare)⟩
  obtain ⟨fault, rfl, hfault⟩ := List.map_eq_singleton_iff.mp hfaults.symm
  cases hfault
  rw [hlisted]
  rfl

/-- The layer of a document that is one integer of 4301 digits fails to load; but a dry run breaks
down at it, and lists no error. -/
theorem dry_run_lists_no_long_integer :
    let answer := (new .oneDocument .empty false).runUnder Output.noRefusals
      (.withBase (Json.ones 4301) 1) { BuildOptions.plain with dryRun := true }
    .breakdown .integerTooLong ∈ Config.oneDocument.loadFailures (.withBase (Json.ones 4301) 1) ∧
      answer.pipeline.lastReport.map Report.errors = some [] := by
  intro answer
  let tree : FileTree := .withBase (Json.ones 4301) 1
  have hbreaks := Config.breaksAt_ones (by decide : Json.maxIntegerDigits < 4301) 1 true
  have hstopped := Store.stopped_load_eq_breakdown_iff.mpr hbreaks
  have hfails := (trueTo_new .oneDocument false [tree]).load_fails List.mem_cons_self
  have hresult : answer.result = .error (.breakdown .integerTooLong) :=
    result_runUnder_eq_breakdown_iff.mpr (.loading _ ⟨⟨["light"], rfl⟩, hbreaks⟩)
  have hends := ends_runUnder Output.noRefusals (new .oneDocument .empty false) tree
    { BuildOptions.plain with dryRun := true }
  refine ⟨List.mem_of_find?_eq_some (hfails.2.symm.trans hstopped), ?_⟩
  rw [hends.lastReport, Option.map_some, (hends.brokeDown _ hresult).2.1]

end Pipeline

end DesignTokens
