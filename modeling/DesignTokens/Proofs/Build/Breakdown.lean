import DesignTokens.Proofs.Build.Reuse
import DesignTokens.Proofs.Build.Sheets
import DesignTokens.Proofs.Json.Integers
import DesignTokens.Proofs.Store.Breakdown
/-!
# When a run breaks down

A run breaks down where the source of a layer breaks its loading, where resolving comes to a tree
without a fingerprint, or where there is no path to write to.  It never lacks an entry of a style
sheet.
-/

set_option autoImplicit false

namespace DesignTokens

/-! ## Stages -/

namespace Build

variable {task : Task} {progress : Progress} {config : Config} {detailed : Bool}
  {cache : ResolutionCache} {layers : List Layer} {modes : List String}

/-- Resolving comes to a tree without a fingerprint: a dry build does if there is one, and a normal
one if it finds no error before. -/
def ComesBeyondDigits (dryRun detailed : Bool) (cache : ResolutionCache) (layers : List Layer)
    (modes : List String) : Prop :=
  ¬ Cascade.WithinDigits (Cascade.composeAll layers modes) ∧
    (dryRun = false → Cascade.coverageGaps (Cascade.composeAll layers modes) = [] ∧
      (gathering detailed cache layers modes).errors = [])

/-- The checks break down exactly if resolving comes to a tree without a fingerprint. -/
theorem checking_eq_breakdown_iff {cause : Breakdown} :
    (checking task progress layers modes).outcome = .error (.breakdown cause) ↔
      cause = .integerTooLong ∧ ComesBeyondDigits task.options.dryRun task.detailed progress.cache
        layers modes := by
  constructor
  · intro h
    have hstopped := stopped_of_checking_eq_breakdown h
    have hcause := stopped_gathering_eq_some hstopped
    refine ⟨Failure.breakdown.inj hcause, fun hwithin => ?_, fun hnormal => ?_⟩
    · rw [stopped_gathering_eq_none_iff.mpr hwithin] at hstopped
      cases hstopped
    · rw [outcome_checking_of_normal hnormal] at h
      cases hfound : findings task.config task.detailed progress.cache layers modes with
      | cons first others =>
        rw [hfound] at h
        cases h
      | nil =>
        unfold findings at hfound
        rw [List.append_eq_nil_iff, List.append_eq_nil_iff, List.map_eq_nil_iff] at hfound
        exact hfound.1
  · rintro ⟨rfl, hbeyond, hnormal⟩
    have hstopped : (gathering task.detailed progress.cache layers modes).stopped =
        some (.breakdown .integerTooLong) :=
      (stopped_resolveAll_of_collect _ _ _).2 hbeyond
    cases hdry : task.options.dryRun with
    | true => rw [outcome_checking_of_dry hdry, hstopped]
    | false =>
      obtain ⟨hgaps, herrors⟩ := hnormal hdry
      rw [outcome_checking_of_normal hdry]
      unfold findings collisions plan
      simp only [hgaps, herrors, hstopped]
      rfl

/-- Planning breaks down exactly if loading does, or the checks of what it has loaded do. -/
theorem planning_eq_breakdown_iff {cause : Breakdown} :
    (planning task progress).outcome = .error (.breakdown cause) ↔
      ∃ modes, selectModes task.config task.options.modes = .ok modes ∧
        (progress.store.BreaksAt task.options.dryRun task.tree task.config.layers cause ∨
          (Store.load true task.tree progress.store task.config.layers).stopped = none ∧
          (Store.load true task.tree progress.store task.config.layers).errors = [] ∧
          cause = .integerTooLong ∧ ComesBeyondDigits task.options.dryRun task.detailed
            progress.cache (Store.load true task.tree progress.store task.config.layers).layers
            modes) := by
  cases hmodes : selectModes task.config task.options.modes with
  | error e =>
    rw [outcome_planning_of_refused_modes hmodes]
    refine iff_of_false nofun ?_
    rintro ⟨modes, hnone, _⟩
    cases hnone
  | ok modes =>
    simp only [Except.ok.injEq, exists_eq_left', ← Store.stopped_load_eq_breakdown_iff]
    constructor
    · intro h
      cases hloading : (loading task progress).outcome with
      | error failure =>
        rw [planning_of_modes hmodes, Step.outcome_andThen_of_error hloading] at h
        cases h
        rw [outcome_loading rfl] at hloading
        split at hloading
        · rename_i hstopped
          cases hloading
          exact .inl hstopped
        · cases hloading
        · cases hloading
      | ok loaded =>
        obtain ⟨hstopped, herrors⟩ := clean_of_loading_eq_ok hloading
        obtain ⟨_, hcache, houtcome⟩ :=
          outcome_planning_of_loaded task progress hmodes hstopped herrors
        rw [houtcome, checking_eq_breakdown_iff, hcache] at h
        exact .inr ⟨hstopped, herrors, h⟩
    · rintro (hstopped | ⟨hstopped, herrors, hbeyond⟩)
      · exact outcome_planning_of_stopped hmodes hstopped
      · obtain ⟨_, hcache, houtcome⟩ :=
          outcome_planning_of_loaded task progress hmodes hstopped herrors
        rw [houtcome, checking_eq_breakdown_iff, hcache]
        exact hbeyond

/-- Writing breaks down exactly if there is no path to write to. -/
theorem writing_eq_breakdown_iff {planned : Planned} {cause : Breakdown} :
    (writing task progress planned).outcome = .error (.breakdown cause) ↔
      cause = .file .notAPath ∧ task.options.dryRun = false ∧
        (Output.writeUnder task.refuses task.tree task.outputDir planned.files).outcome =
          .error .notAPath := by
  unfold writing
  cases task.options.dryRun with
  | true =>
    rw [if_pos rfl]
    exact iff_of_false nofun nofun
  | false =>
    rw [if_neg Bool.false_ne_true]
    simp only
    cases (Output.writeUnder task.refuses task.tree task.outputDir planned.files).outcome with
    | ok written => exact iff_of_false nofun nofun
    | error fault =>
      cases fault with
      | notAPath => simp [eq_comm]
      | _ => exact iff_of_false nofun nofun

theorem stages_of_planning_ok {planned : Planned}
    (h : (planning task progress).outcome = .ok planned) :
    stages task progress = writing task (planning task progress).progress planned := by
  unfold stages
  simp only [h]

end Build

/-! ## The whole run -/

namespace Pipeline

variable {refuses : Output.Refusals} {pipeline : Pipeline} {tree : FileTree}
  {options : BuildOptions} {cause : Breakdown}

/-- The source of a layer breaks the loading of known modes. -/
def LoadingBreaks (pipeline : Pipeline) (tree : FileTree) (options : BuildOptions)
    (cause : Breakdown) : Prop :=
  (∃ modes, Build.selectModes pipeline.config options.modes = .ok modes) ∧
    pipeline.store.BreaksAt options.dryRun tree pipeline.config.layers cause

/-- All layers load, but resolving known modes comes to a tree without a fingerprint. -/
def ResolvingBreaks (pipeline : Pipeline) (tree : FileTree) (options : BuildOptions) : Prop :=
  let loaded := Store.load true tree pipeline.store pipeline.config.layers
  loaded.stopped = none ∧ loaded.errors = [] ∧
    ∃ modes, Build.selectModes pipeline.config options.modes = .ok modes ∧
      Build.ComesBeyondDigits options.dryRun (options.verbose || pipeline.detailed) pipeline.cache
        loaded.layers modes

/-- There are files to write, but no path to write them to. -/
def WritingBreaks (refuses : Output.Refusals) (pipeline : Pipeline) (tree : FileTree)
    (options : BuildOptions) : Prop :=
  options.dryRun = false ∧ ∃ planned, pipeline.plan refuses tree options = .ok planned ∧
    (Output.writeUnder refuses tree (options.outputDir.getD pipeline.config.outputDir)
      planned.files).outcome = .error .notAPath

theorem result_buildUnder_eq_error_iff {failure : Failure} :
    (pipeline.buildUnder refuses tree options).result = .error failure ↔
      (Build.stages (pipeline.task refuses tree options) (pipeline.start options)).outcome =
        .error failure := by
  unfold buildUnder
  simp only
  cases (Build.stages (pipeline.task refuses tree options) (pipeline.start options)).outcome with
  | ok planned => exact iff_of_false nofun nofun
  | error failure => simp [Except.map]

/-- The ways in which a run breaks down: loading does, resolving does, or writing. -/
inductive BreaksDown (refuses : Output.Refusals) (pipeline : Pipeline) (tree : FileTree)
    (options : BuildOptions) : Breakdown → Prop where
  | loading (cause : Breakdown) (h : pipeline.LoadingBreaks tree options cause) :
      BreaksDown refuses pipeline tree options cause
  | resolving (h : pipeline.ResolvingBreaks tree options) :
      BreaksDown refuses pipeline tree options .integerTooLong
  | writing (h : WritingBreaks refuses pipeline tree options) :
      BreaksDown refuses pipeline tree options (.file .notAPath)

theorem plan_eq_breakdown_iff :
    pipeline.plan refuses tree options = .error (.breakdown cause) ↔
      pipeline.LoadingBreaks tree options cause ∨
        cause = .integerTooLong ∧ pipeline.ResolvingBreaks tree options := by
  unfold plan LoadingBreaks ResolvingBreaks
  rw [Build.planning_eq_breakdown_iff]
  constructor
  · rintro ⟨modes, hmodes, hbreaks | ⟨hstopped, herrors, rfl, hbeyond⟩⟩
    · exact .inl ⟨⟨modes, hmodes⟩, hbreaks⟩
    · exact .inr ⟨rfl, hstopped, herrors, modes, hmodes, hbeyond⟩
  · rintro (⟨⟨modes, hmodes⟩, hbreaks⟩ | ⟨rfl, hstopped, herrors, modes, hmodes, hbeyond⟩)
    · exact ⟨modes, hmodes, .inl hbreaks⟩
    · exact ⟨modes, hmodes, .inr ⟨hstopped, herrors, rfl, hbeyond⟩⟩

/-- A run breaks down in these ways, and in no other. -/
theorem result_eq_breakdown_iff :
    (pipeline.buildUnder refuses tree options).result = .error (.breakdown cause) ↔
      BreaksDown refuses pipeline tree options cause := by
  have hplanning : pipeline.plan refuses tree options = .error (.breakdown cause) ↔ _ :=
    plan_eq_breakdown_iff
  have hways : BreaksDown refuses pipeline tree options cause ↔
      (pipeline.LoadingBreaks tree options cause ∨
        cause = .integerTooLong ∧ pipeline.ResolvingBreaks tree options) ∨
        cause = .file .notAPath ∧ WritingBreaks refuses pipeline tree options := by
    constructor
    · intro h
      cases h with
      | loading _ h => exact .inl (.inl h)
      | resolving h => exact .inl (.inr ⟨rfl, h⟩)
      | writing h => exact .inr ⟨rfl, h⟩
    · rintro ((h | ⟨rfl, h⟩) | ⟨rfl, h⟩)
      · exact .loading cause h
      · exact .resolving h
      · exact .writing h
  rw [hways, ← hplanning]
  cases hplan : pipeline.plan refuses tree options with
  | error failure =>
    rw [(buildUnder_of_plan_error hplan).1, Except.error.injEq, Except.error.injEq, or_iff_left]
    rintro ⟨_, _, planned, hplanned, _⟩
    rw [hplan] at hplanned
    cases hplanned
  | ok planned =>
    rw [result_buildUnder_eq_error_iff, Build.stages_of_planning_ok hplan,
      Build.writing_eq_breakdown_iff, or_iff_right nofun]
    unfold WritingBreaks
    simp only [hplan, Except.ok.injEq, exists_eq_left']
    rfl

end Pipeline

/-! ## An integer that is too long -/

/-- A document with a text that breaks the reader breaks loading. -/
theorem Config.breaksLoading_oneDocument {text : String} (changed : Int)
    (htext : FileTree.decodeText text.toUTF8 = some text)
    (hread : Json.read .refuse text = .error .integerTooLong) :
    LayerSource.base.BreaksLoading (Store.new oneDocument.dataDir) (.withBase text changed)
      .integerTooLong := by
  let path : Path := ⟨.root, ["tokens", "base.json"]⟩
  have hkept : (Store.new oneDocument.dataDir).kept? (.withBase text changed) path = none := rfl
  exact .integer path text rfl hkept (FileTree.readText_withBase changed htext) hread

/-- Loading breaks down at a document that is one long integer. -/
theorem Config.breaksAt_ones {count : Nat} (h : Json.maxIntegerDigits < count) (changed : Int)
    (collect : Bool) :
    (Store.new oneDocument.dataDir).BreaksAt collect (.withBase (Json.ones count) changed)
      oneDocument.layers .integerTooLong := by
  have htext : FileTree.decodeText (Json.ones count).toUTF8 = some (Json.ones count) := by
    refine FileTree.decodeText_toUTF8 ?_
    unfold Json.ones
    rw [String.toList_ofList]
    intro hmem
    exact absurd (List.eq_of_mem_replicate hmem) (by decide)
  exact ⟨[], .base, [], rfl,
    breaksLoading_oneDocument changed htext (Json.read_ones_of_lt .refuse h), List.forall_mem_nil _⟩

end DesignTokens
