import DesignTokens.Proofs.Build.Findings
/-!
# What a dry run foretells

A dry run comes to the same files as a normal one, or reports the error at which a normal one would
stop as its first.  The exceptions are dry runs that break down later than a normal one stops: at a
layer after a faulty document, or at a tree without a fingerprint after a gap in the modes.
-/

set_option autoImplicit false

namespace DesignTokens

namespace Build

/-- Where the checks of a normal build stop at an error, the checks of a dry one find it first, if
they go through all trees. -/
theorem outcome_checking_dry_of_error (dry normal : Task) {progress progress' : Progress}
    {layers : List Layer} {modes : List String} {e : BuildError}
    (hdry : dry.options.dryRun = true) (hnormal : normal.options.dryRun = false)
    (hconfig : dry.config = normal.config) (hdetailed : dry.detailed = normal.detailed)
    (hcache : progress.cache = progress'.cache)
    (hwithin : Cascade.WithinDigits (Cascade.composeAll layers modes))
    (h : (checking normal progress' layers modes).outcome = .error (.error e)) :
    ∃ others, (checking dry progress layers modes).outcome =
      .error (.collected (e :: others)) := by
  have hstopped :
      (gathering normal.detailed progress'.cache layers modes).stopped = none :=
    stopped_gathering_eq_none_iff.mpr hwithin
  rw [outcome_checking_of_normal hnormal] at h
  rw [outcome_checking_of_dry hdry, hconfig, hdetailed, hcache, hstopped]
  cases hfound : findings normal.config normal.detailed progress'.cache layers modes with
  | nil =>
    rw [hfound] at h
    rcases plan_error_eq h with hsome | ⟨_, hbreakdown⟩
    · rw [hstopped] at hsome
      cases hsome
    · cases hbreakdown
  | cons first others =>
    rw [hfound] at h
    cases h
    exact ⟨others, rfl⟩

/-- A tree without a fingerprint breaks down the checks of a dry build, whatever they have found. -/
theorem outcome_checking_dry_of_beyond {task : Task} {progress : Progress} {layers : List Layer}
    {modes : List String} (hdry : task.options.dryRun = true)
    (hbeyond : ¬ Cascade.WithinDigits (Cascade.composeAll layers modes)) :
    (checking task progress layers modes).outcome =
      .error (.breakdown .integerTooLong) := by
  have hstopped : (gathering task.detailed progress.cache layers modes).stopped =
      some (.breakdown .integerTooLong) :=
    (stopped_resolveAll_of_collect _ _ _).2 hbeyond
  rw [outcome_checking_of_dry hdry, hstopped]

/-- Choosing modes fails for an unknown one. -/
theorem exists_unknownMode_of_selectModes {config : Config} {asked : Option (List String)}
    {e : BuildError} (h : selectModes config asked = .error e) :
    ∃ mode, e = .config (.unknownMode mode config.modes) := by
  unfold selectModes at h
  split at h
  · cases h
  · cases h
  · split at h
    · cases h
      exact ⟨_, rfl⟩
    · cases h

end Build

namespace Pipeline

variable {refuses : Output.Refusals} {pipeline : Pipeline} {tree : FileTree}
  {options : BuildOptions}

/-- A dry run that comes to files yields them, and writes nothing. -/
theorem buildUnder_of_plan_ok (hdry : options.dryRun = true) {planned : Build.Planned}
    (h : pipeline.plan refuses tree options = .ok planned) :
    (∃ result, (pipeline.buildUnder refuses tree options).result = .ok result ∧
        result.resolved = planned.resolved ∧ result.files = planned.files) ∧
      (pipeline.buildUnder refuses tree options).tree = tree := by
  unfold plan at h
  unfold buildUnder Build.stages Build.writing
  simp only [h, show (pipeline.task refuses tree options).options.dryRun = true from hdry]
  exact ⟨⟨_, rfl, rfl, rfl⟩, rfl⟩

/-- A dry run leaves the tree as it is. -/
theorem tree_of_dry_run (hdry : options.dryRun = true) :
    (pipeline.buildUnder refuses tree options).tree = tree := by
  cases hplan : pipeline.plan refuses tree options with
  | error failure => exact (buildUnder_of_plan_error hplan).2
  | ok planned => exact (buildUnder_of_plan_ok hdry hplan).2

/-- Whether a dry run keeps what it gathers: nothing but faults of documents holds up loading, and
if there are none, all trees have fingerprints. -/
def KeepsFindings (pipeline : Pipeline) (tree : FileTree) (modes : List String) : Prop :=
  let loaded := Store.load true tree pipeline.store pipeline.config.layers
  loaded.stopped = none ∧
    (loaded.errors = [] → Cascade.WithinDigits (Cascade.composeAll loaded.layers modes))

/-- If a dry run keeps what it gathers, its first error is the one at which a normal run stops. -/
theorem plan_dry_of_error {modes : List String} {e : BuildError}
    (hmodes : Build.selectModes pipeline.config options.modes = .ok modes)
    (hkeeps : pipeline.KeepsFindings tree modes)
    (h : pipeline.plan refuses tree { options with dryRun := false } = .error (.error e)) :
    ∃ others, pipeline.plan refuses tree { options with dryRun := true } =
      .error (.collected (e :: others)) := by
  obtain ⟨hstopped, hwithin⟩ := hkeeps
  cases herrors : (Store.load true tree pipeline.store pipeline.config.layers).errors with
  | cons first others =>
    have hstrict := Store.load_strict_of_errors_eq_cons herrors
    rw [plan, Build.outcome_planning_of_stopped hmodes hstrict, Except.error.injEq,
      Failure.error.injEq] at h
    exact ⟨others, h ▸ Build.outcome_planning_of_faults hmodes rfl hstopped herrors⟩
  | nil =>
    have hloaded (dryRun : Bool) := Build.outcome_planning_of_loaded
      (pipeline.task refuses tree { options with dryRun })
      (pipeline.start { options with dryRun }) hmodes hstopped herrors
    obtain ⟨normal, hnormal, hplan⟩ := hloaded false
    obtain ⟨dry, hdry, hplan'⟩ := hloaded true
    rw [plan, hplan] at h
    rw [plan, hplan']
    exact Build.outcome_checking_dry_of_error _
      (pipeline.task refuses tree { options with dryRun := false })
      rfl rfl rfl rfl (hdry.trans hnormal.symm) (hwithin herrors) h

/-- A dry run comes to the same files as a normal one. -/
theorem plan_dry_iff {planned : Build.Planned} :
    pipeline.plan refuses tree { options with dryRun := false } = .ok planned ↔
      pipeline.plan refuses tree { options with dryRun := true } = .ok planned := by
  unfold plan
  rw [Build.planning_eq_ok_iff, Build.planning_eq_ok_iff]
  exact Iff.rfl

/-- A dry run that does not keep what it gathers ends with what stops loading, or breaks down. -/
theorem plan_dry_of_not_keepsFindings {modes : List String}
    (hmodes : Build.selectModes pipeline.config options.modes = .ok modes)
    (h : ¬ pipeline.KeepsFindings tree modes) :
    ∃ failure, pipeline.plan refuses tree { options with dryRun := true } = .error failure ∧
      ((Store.load true tree pipeline.store pipeline.config.layers).stopped = some failure ∨
        failure = .breakdown .integerTooLong) := by
  cases hstopped : (Store.load true tree pipeline.store pipeline.config.layers).stopped with
  | some failure => exact ⟨failure, Build.outcome_planning_of_stopped hmodes hstopped, .inl rfl⟩
  | none =>
    simp only [KeepsFindings, hstopped, true_and, Classical.not_imp] at h
    obtain ⟨herrors, hbeyond⟩ := h
    obtain ⟨loaded, _, hplan⟩ := Build.outcome_planning_of_loaded
      (pipeline.task refuses tree { options with dryRun := true })
      (pipeline.start { options with dryRun := true }) hmodes hstopped herrors
    exact ⟨_, hplan.trans (Build.outcome_checking_dry_of_beyond rfl hbeyond), .inr rfl⟩

/-- Whether a dry run foretells an error of a normal one: it ends with the same error about an
unknown mode, or with errors of which this one is the first. -/
def Foretells (config : Config) (dry : Except Failure BuildResult) (e : BuildError) : Prop :=
  (dry = .error (.error e) ∧ ∃ mode, e = .config (.unknownMode mode config.modes)) ∨
    ∃ others, dry = .error (.collected (e :: others))

/-- A dry run succeeds exactly if a normal run comes to write, with the same files. -/
theorem plan_eq_ok_iff_dry_run {planned : Build.Planned} :
    pipeline.plan refuses tree { options with dryRun := false } = .ok planned ↔
      ∃ result, (pipeline.buildUnder refuses tree { options with dryRun := true }).result =
        .ok result ∧ result.resolved = planned.resolved ∧ result.files = planned.files := by
  rw [plan_dry_iff]
  constructor
  · intro hplan
    exact (buildUnder_of_plan_ok rfl hplan).1
  · rintro ⟨result, hresult, hresolved, hfiles⟩
    obtain ⟨resolved, files⟩ := planned
    simp only at hresolved hfiles
    rw [plan_of_buildUnder_eq_ok hresult, hresolved, hfiles]

/-- Asking for an unknown mode ends a dry run and a normal one with the same error. -/
theorem foretells_of_unknownMode {unknown e : BuildError}
    (hmodes : Build.selectModes pipeline.config options.modes = .error unknown)
    (h : pipeline.plan refuses tree { options with dryRun := false } = .error (.error e)) :
    Foretells pipeline.config
      (pipeline.buildUnder refuses tree { options with dryRun := true }).result e := by
  have hplan (dryRun : Bool) : pipeline.plan refuses tree { options with dryRun } =
      .error (.error unknown) :=
    Build.outcome_planning_of_refused_modes hmodes
  rw [hplan false, Except.error.injEq, Failure.error.injEq] at h
  subst h
  exact .inl ⟨(buildUnder_of_plan_error (hplan true)).1,
    Build.exists_unknownMode_of_selectModes hmodes⟩

/-- A dry run that keeps what it gathers foretells the error of a normal one. -/
theorem foretells_of_keepsFindings {modes : List String} {e : BuildError}
    (hmodes : Build.selectModes pipeline.config options.modes = .ok modes)
    (hkeeps : pipeline.KeepsFindings tree modes)
    (h : pipeline.plan refuses tree { options with dryRun := false } = .error (.error e)) :
    Foretells pipeline.config
      (pipeline.buildUnder refuses tree { options with dryRun := true }).result e := by
  obtain ⟨others, hothers⟩ := plan_dry_of_error hmodes hkeeps h
  exact .inr ⟨others, (buildUnder_of_plan_error hothers).1⟩

/-- A dry run that does not keep what it gathers foretells nothing. -/
theorem not_foretells_of_not_keepsFindings {modes : List String}
    (hmodes : Build.selectModes pipeline.config options.modes = .ok modes)
    (h : ¬ pipeline.KeepsFindings tree modes) (e : BuildError) :
    ¬Foretells pipeline.config
      (pipeline.buildUnder refuses tree { options with dryRun := true }).result e := by
  obtain ⟨failure, hplan, hcause⟩ :
      ∃ failure, pipeline.plan refuses tree { options with dryRun := true } = .error failure ∧ _ :=
    plan_dry_of_not_keepsFindings hmodes h
  have hdry := (buildUnder_of_plan_error hplan).1
  intro hforetells
  rcases hforetells with ⟨heq, mode, rfl⟩ | ⟨others, heq⟩
  · rw [hdry, Except.error.injEq] at heq
    rcases hcause with hstopped | rfl
    · exact (Store.load_stopped_ofLayer hstopped).ne_unknownMode mode _ heq
    · cases heq
  · rw [hdry, Except.error.injEq] at heq
    rcases hcause with hstopped | rfl
    · exact (Store.load_stopped_ofLayer hstopped).ne_collected _ heq
    · cases heq

/-- An error of a normal run is foretold exactly if an unknown mode is asked for, or the dry run
keeps what it gathers. -/
theorem foretells_iff {e : BuildError}
    (h : pipeline.plan refuses tree { options with dryRun := false } = .error (.error e)) :
    Foretells pipeline.config
        (pipeline.buildUnder refuses tree { options with dryRun := true }).result e ↔
      (∃ unknown, Build.selectModes pipeline.config options.modes = .error unknown) ∨
        ∃ modes, Build.selectModes pipeline.config options.modes = .ok modes ∧
          pipeline.KeepsFindings tree modes := by
  cases hmodes : Build.selectModes pipeline.config options.modes with
  | error unknown => exact iff_of_true (foretells_of_unknownMode hmodes h) (.inl ⟨unknown, rfl⟩)
  | ok modes =>
    by_cases hkeeps : pipeline.KeepsFindings tree modes
    · exact iff_of_true (foretells_of_keepsFindings hmodes hkeeps h) (.inr ⟨modes, rfl, hkeeps⟩)
    · refine iff_of_false (not_foretells_of_not_keepsFindings hmodes hkeeps e) ?_
      rintro (⟨unknown, hunknown⟩ | ⟨modes, hsame, hkeeps'⟩)
      · cases hunknown
      · cases hsame
        exact hkeeps hkeeps'

end Pipeline

/-- A dry run leaves the tree as it is, and succeeds exactly if a normal run comes to write, with
the same files.  An error at which a normal run stops before it writes is foretold exactly if an
unknown mode is asked for, or the dry run keeps what it gathers. -/
theorem Pipeline.dry_run_foretells (refuses : Output.Refusals) (pipeline : Pipeline)
    (tree : FileTree) (options : BuildOptions) :
    let dry := pipeline.buildUnder refuses tree { options with dryRun := true }
    let plan := pipeline.plan refuses tree { options with dryRun := false }
    dry.tree = tree ∧
      (∀ planned, plan = .ok planned ↔ ∃ result, dry.result = .ok result ∧
        result.resolved = planned.resolved ∧ result.files = planned.files) ∧
      ∀ e, plan = .error (.error e) →
        (Foretells pipeline.config dry.result e ↔
          (∃ unknown, Build.selectModes pipeline.config options.modes = .error unknown) ∨
            ∃ modes, Build.selectModes pipeline.config options.modes = .ok modes ∧
              pipeline.KeepsFindings tree modes) := by
  intro dry plan
  refine ⟨tree_of_dry_run rfl, ?_, ?_⟩
  · intro planned
    exact plan_eq_ok_iff_dry_run
  · intro e he
    exact foretells_iff he

theorem exists_of_single {α : Type} {outcome : Except Failure α}
    (h : (match outcome with | .error (.error _) => true | _ => false) = true) :
    ∃ e, outcome = .error (.error e) := by
  split at h
  · exact ⟨_, rfl⟩
  · cases h

/-- Settings with a layer whose document is missing, and a layer with a scale that is keyed by
numbers. -/
def Config.numberedScale : Config :=
  { theme := "brand"
    dataDir := ⟨.root, ["tokens"]⟩
    outputDir := ⟨.root, ["out"]⟩
    modes := ["light"]
    defaultMode := "light"
    layers := [
      { name := "base", source := some "missing.json", data := none
        mode := none, group := "tokens", emit := true, skippable := false },
      { name := "scale", source := none
        data := some [(.str "size", .map [(.int 1, .map [(.str "value", .int 4)])])]
        mode := none, group := "tokens", emit := true, skippable := false }]
    indexImports := []
    minify := false }

/-- The layer with the missing document alone. -/
def Config.missingBase : Config :=
  { Config.numberedScale with layers := Config.numberedScale.layers.take 1 }

theorem Pipeline.dry_run_foretells_missing_document :
    ∃ e, (Pipeline.new .missingBase .empty false).plan Output.noRefusals ⟨[], [], 1⟩
        { BuildOptions.plain with dryRun := false } = .error (.error e) ∧
      Foretells .missingBase ((Pipeline.new .missingBase .empty false).buildUnder
        Output.noRefusals ⟨[], [], 1⟩ { BuildOptions.plain with dryRun := true }).result e := by
  obtain ⟨_, _, hforetold⟩ := Pipeline.dry_run_foretells Output.noRefusals
    (.new .missingBase .empty false) ⟨[], [], 1⟩ .plain
  obtain ⟨e, he⟩ : ∃ e, (Pipeline.new .missingBase .empty false).plan Output.noRefusals
      ⟨[], [], 1⟩ { BuildOptions.plain with dryRun := false } = .error (.error e) :=
    exists_of_single (by decide +kernel)
  have hmodes : Build.selectModes Config.missingBase none = .ok ["light"] :=
    rfl
  have hloaded : (Store.load true ⟨[], [], 1⟩ (Store.new Config.missingBase.dataDir)
      Config.missingBase.layers).stopped = none :=
    Option.isNone_iff_eq_none.mp (by decide +kernel)
  have herrors : (Store.load true ⟨[], [], 1⟩ (Store.new Config.missingBase.dataDir)
      Config.missingBase.layers).errors ≠ [] :=
    List.isEmpty_eq_false_iff.mp (by decide +kernel)
  exact ⟨e, he, (hforetold e he).mpr
    (.inr ⟨_, hmodes, hloaded, fun hnil => absurd hnil herrors⟩)⟩

/-- A normal run stops at the missing document; a dry run goes on past it and breaks down at the
scale, whose keys are no text. -/
theorem Pipeline.dry_run_breaks_down_past_missing_document :
    ∃ e, (Pipeline.new .numberedScale .empty false).plan Output.noRefusals ⟨[], [], 1⟩
        { BuildOptions.plain with dryRun := false } = .error (.error e) ∧
      ¬Foretells .numberedScale ((Pipeline.new .numberedScale .empty false).buildUnder
        Output.noRefusals ⟨[], [], 1⟩ { BuildOptions.plain with dryRun := true }).result e := by
  obtain ⟨e, he⟩ : ∃ e, (Pipeline.new .numberedScale .empty false).plan Output.noRefusals
      ⟨[], [], 1⟩ { BuildOptions.plain with dryRun := false } = .error (.error e) :=
    exists_of_single (by decide +kernel)
  have hdry : (((Pipeline.new .numberedScale .empty false).buildUnder Output.noRefusals
      ⟨[], [], 1⟩ { BuildOptions.plain with dryRun := true }).result.map fun _ => ()).mapError
        (fun failure => failure.errors.length) = .error 0 := by
    decide +kernel
  refine ⟨e, he, ?_⟩
  rintro (⟨heq, _⟩ | ⟨others, heq⟩)
  · rw [heq] at hdry
    cases hdry
  · rw [heq] at hdry
    cases hdry

end DesignTokens
