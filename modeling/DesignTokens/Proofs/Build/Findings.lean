import DesignTokens.Build.Pipeline
import DesignTokens.Proofs.Resolution.Fingerprint
import DesignTokens.Proofs.Resolution.Pass
import DesignTokens.Proofs.Store
/-!
# What a build finds

Once the layers are loaded, the checks of a build find a list of errors.  A normal build stops at
the first of them, a dry one with all of them; without any, both come to the same files.  Resolving
breaks down at the first tree without a fingerprint: a normal build comes to it unless it stops
before, and a dry one loses to it what it has gathered.
-/

set_option autoImplicit false

namespace DesignTokens

/-! ## Progress -/

@[simp]
theorem Build.Progress.store_enter (progress : Build.Progress) (stage : Stage) :
    (progress.enter stage).store = progress.store := rfl

@[simp]
theorem Build.Progress.cache_enter (progress : Build.Progress) (stage : Stage) :
    (progress.enter stage).cache = progress.cache := rfl

/-! ## Resolving -/

/-- A strict resolution without an error to find is a gathering one. -/
theorem ResolutionCache.resolve_strict_of_errors_eq_nil {cache : ResolutionCache}
    {tree : TokenTree} {mode : String} (h : (cache.resolve true tree mode).1.errors = []) :
    cache.resolve false tree mode = cache.resolve true tree mode := by
  cases hrenderable : tree.isRenderable with
  | false =>
    rw [resolve_of_not_isRenderable hrenderable, resolve_of_not_isRenderable hrenderable]
  | true =>
    rw [resolve_of_isRenderable hrenderable] at h
    rw [resolve_of_isRenderable hrenderable, resolve_of_isRenderable hrenderable]
    obtain ⟨hhead, hsame⟩ :=
      Resolution.stopped_eq_head?_errors tree mode (cache.startPass mode tree) tree
    unfold passOver at h ⊢
    simp only at h ⊢
    rw [h] at hhead
    rw [hsame hhead]

/-- A strict resolution stops at the first error that a gathering one finds. -/
theorem ResolutionCache.resolve_strict_of_errors_eq_cons {cache : ResolutionCache}
    {tree : TokenTree} {mode : String} {first : BuildError} {others : List BuildError}
    (h : (cache.resolve true tree mode).1.errors = first :: others) :
    (cache.resolve false tree mode).1.stopped = some (.error first) := by
  cases hrenderable : tree.isRenderable with
  | false =>
    rw [resolve_of_not_isRenderable hrenderable] at h
    cases h
  | true =>
    rw [resolve_of_isRenderable hrenderable] at h ⊢
    obtain ⟨hhead, _⟩ :=
      Resolution.stopped_eq_head?_errors tree mode (cache.startPass mode tree) tree
    unfold passOver at h ⊢
    simp only at h ⊢
    rw [hhead, h, List.head?_cons, Option.map_some]

namespace Build

variable {task : Task} {progress : Progress} {detailed : Bool} {cache : ResolutionCache}
  {composed : List (String × TokenTree)}

/-- Gathering goes on with the next mode after a tree with a fingerprint. -/
theorem resolveAll_cons_of_isRenderable {mode : String} {tree : TokenTree}
    (h : tree.isRenderable = true) :
    (resolveAll true detailed cache ((mode, tree) :: composed)).errors =
        (cache.resolve true tree mode).1.errors ++
          (resolveAll true detailed (cache.resolve true tree mode).2 composed).errors ∧
      (resolveAll true detailed cache ((mode, tree) :: composed)).stopped =
        (resolveAll true detailed (cache.resolve true tree mode).2 composed).stopped := by
  have hstopped : (cache.resolve true tree mode).1.stopped = none :=
    ResolutionCache.stopped_resolve_true h cache mode
  rw [resolveAll]
  simp only [hstopped, and_self]

/-- Resolving ends with a tree without a fingerprint. -/
theorem resolveAll_cons_of_not_isRenderable {collect : Bool} {mode : String} {tree : TokenTree}
    (h : tree.isRenderable = false) :
    (resolveAll collect detailed cache ((mode, tree) :: composed)).errors = [] ∧
      (resolveAll collect detailed cache ((mode, tree) :: composed)).stopped =
        some (.breakdown .integerTooLong) := by
  rw [resolveAll, ResolutionCache.resolve_of_not_isRenderable h]
  exact ⟨rfl, rfl⟩

/-- Gathering goes through the trees of all modes exactly if all have a fingerprint. -/
theorem stopped_resolveAll_of_collect (detailed : Bool) (cache : ResolutionCache)
    (composed : List (String × TokenTree)) :
    (Cascade.WithinDigits composed → (resolveAll true detailed cache composed).stopped = none) ∧
      (¬ Cascade.WithinDigits composed →
        (resolveAll true detailed cache composed).stopped =
          some (.breakdown .integerTooLong)) := by
  rw [Cascade.withinDigits_iff]
  induction composed generalizing cache with
  | nil => exact ⟨fun _ => rfl, fun h => absurd (List.forall_mem_nil _) h⟩
  | cons entry rest ih =>
    obtain ⟨mode, tree⟩ := entry
    rw [List.forall_mem_cons]
    cases hrenderable : tree.isRenderable with
    | true =>
      rw [(resolveAll_cons_of_isRenderable hrenderable).2]
      simpa using ih _
    | false =>
      rw [(resolveAll_cons_of_not_isRenderable hrenderable).2]
      simp

theorem stopped_resolveAll_of_collect_eq_none_iff :
    (resolveAll true detailed cache composed).stopped = none ↔ Cascade.WithinDigits composed := by
  obtain ⟨hwithin, hbeyond⟩ := stopped_resolveAll_of_collect detailed cache composed
  refine ⟨fun hnone => ?_, hwithin⟩
  by_contra h
  rw [hbeyond h] at hnone
  cases hnone

/-- Resolving the trees of all modes strictly, without an error to find, is resolving them
gathering. -/
theorem resolveAll_strict_of_errors_eq_nil
    (h : (resolveAll true detailed cache composed).errors = []) :
    resolveAll false detailed cache composed = resolveAll true detailed cache composed := by
  induction composed generalizing cache with
  | nil => rfl
  | cons entry rest ih =>
    obtain ⟨mode, tree⟩ := entry
    cases hrenderable : tree.isRenderable with
    | true =>
      rw [(resolveAll_cons_of_isRenderable hrenderable).1, List.append_eq_nil_iff] at h
      obtain ⟨hfirst, hrest⟩ := h
      rw [resolveAll, resolveAll, ResolutionCache.resolve_strict_of_errors_eq_nil hfirst]
      simp only [ih hrest]
    | false =>
      rw [resolveAll, resolveAll, ResolutionCache.resolve_of_not_isRenderable hrenderable,
        ResolutionCache.resolve_of_not_isRenderable hrenderable]
      rfl

/-- Resolving the trees of all modes strictly stops at the first error of any. -/
theorem resolveAll_strict_of_errors_eq_cons {first : BuildError} {others : List BuildError}
    (h : (resolveAll true detailed cache composed).errors = first :: others) :
    (resolveAll false detailed cache composed).stopped = some (.error first) := by
  induction composed generalizing cache others with
  | nil => cases h
  | cons entry rest ih =>
    obtain ⟨mode, tree⟩ := entry
    have hrenderable : tree.isRenderable = true := by
      rw [← Bool.not_eq_false]
      intro hlong
      rw [(resolveAll_cons_of_not_isRenderable hlong).1] at h
      cases h
    rw [(resolveAll_cons_of_isRenderable hrenderable).1] at h
    rw [resolveAll]
    cases hfirst : (cache.resolve true tree mode).1.errors with
    | cons first' others' =>
      rw [hfirst, List.cons_append, List.cons.injEq] at h
      simp only [ResolutionCache.resolve_strict_of_errors_eq_cons hfirst, h.1]
    | nil =>
      have hstopped : (cache.resolve true tree mode).1.stopped = none :=
        ResolutionCache.stopped_resolve_true hrenderable cache mode
      rw [hfirst, List.nil_append] at h
      simp only [ResolutionCache.resolve_strict_of_errors_eq_nil hfirst, hstopped]
      exact ih h

/-! ## Steps -/

theorem Step.andThen_of_ok {α β : Type} {step : Step α} {next : Progress → α → Step β} {value : α}
    (h : step.outcome = .ok value) : step.andThen next = next step.progress value := by
  unfold Step.andThen
  rw [h]

theorem Step.outcome_andThen_of_error {α β : Type} {step : Step α}
    {next : Progress → α → Step β} {failure : Failure} (h : step.outcome = .error failure) :
    (step.andThen next).outcome = .error failure := by
  unfold Step.andThen
  rw [h]

theorem Step.andThen_eq_ok {α β : Type} {step : Step α} {next : Progress → α → Step β} {value : β}
    (h : (step.andThen next).outcome = .ok value) :
    ∃ first, step.outcome = .ok first ∧ (next step.progress first).outcome = .ok value := by
  cases houtcome : step.outcome with
  | error failure =>
    rw [Step.outcome_andThen_of_error houtcome] at h
    cases h
  | ok first =>
    rw [Step.andThen_of_ok houtcome] at h
    exact ⟨first, rfl, h⟩

/-- The stages from composing to formatting, once the layers are loaded. -/
def checking (task : Task) (progress : Progress) (layers : List Layer) (modes : List String) :
    Step Planned :=
  let composed := Cascade.composeAll layers modes
  (composing task progress layers composed).andThen fun checked gathered =>
  (resolving task checked composed).andThen fun settled all =>
  (naming task settled (gathered ++ all.errors) all.resolved).andThen fun named identifiers =>
  formatting task named all.resolved identifiers

theorem planning_eq : planning task progress =
    (selecting task progress).andThen fun selected modes =>
    (loading task selected).andThen fun loaded layers => checking task loaded layers modes :=
  rfl

/-! ## Findings -/

section

variable (config : Config) (detailed : Bool) (cache : ResolutionCache) (layers : List Layer)
  (modes : List String)

/-- What resolving all trees gives when it goes on past errors. -/
def gathering : ResolvedAll :=
  resolveAll true detailed cache (Cascade.composeAll layers modes)

/-- The claims of the emitted paths for their identifiers. -/
def claiming : Claims :=
  Claims.ofPaths (emittedPaths config (gathering detailed cache layers modes).resolved)

/-- The collisions that a build finds in loaded layers, if it comes to naming. -/
def collisions : List Collision :=
  match (gathering detailed cache layers modes).stopped with
  | some _ => []
  | none => (claiming config detailed cache layers modes).collisions

/-- The errors that a build finds in loaded layers, in the order of its checks. -/
def findings : List BuildError :=
  ((Cascade.coverageGaps (Cascade.composeAll layers modes)).map BuildError.coverage ++
      (gathering detailed cache layers modes).errors) ++
    (collisions config detailed cache layers modes).map BuildError.collision

/-- What a build without findings plans, if resolving does not break down. -/
def plan : Except Failure Planned :=
  let resolved := (gathering detailed cache layers modes).resolved
  match (gathering detailed cache layers modes).stopped with
  | some failure => .error failure
  | none =>
    (Css.files config resolved (claiming config detailed cache layers modes).identifiers).map
      (Planned.mk resolved)

end

variable {layers : List Layer} {modes : List String}

/-- Resolving goes through all trees exactly if no integer has too many digits. -/
theorem stopped_gathering_eq_none_iff :
    (gathering detailed cache layers modes).stopped = none ↔
      Cascade.WithinDigits (Cascade.composeAll layers modes) :=
  stopped_resolveAll_of_collect_eq_none_iff

/-- A tree without a fingerprint is all that resolving can break down for. -/
theorem stopped_gathering_eq_some {failure : Failure}
    (h : (gathering detailed cache layers modes).stopped = some failure) :
    failure = .breakdown .integerTooLong := by
  have hbeyond : ¬ Cascade.WithinDigits (Cascade.composeAll layers modes) := by
    intro hwithin
    rw [stopped_gathering_eq_none_iff.mpr hwithin] at h
    cases h
  have hbroken := (stopped_resolveAll_of_collect detailed cache _).2 hbeyond
  exact Option.some.inj (h.symm.trans hbroken)

theorem collisions_of_stopped_eq_none {config : Config}
    (h : (gathering detailed cache layers modes).stopped = none) :
    collisions config detailed cache layers modes =
      (claiming config detailed cache layers modes).collisions := by
  unfold collisions
  rw [h]

/-- Checks that find nothing have found neither a gap nor an error nor a collision. -/
theorem findings_eq_nil {config : Config}
    (hstopped : (gathering detailed cache layers modes).stopped = none)
    (h : findings config detailed cache layers modes = []) :
    Cascade.coverageGaps (Cascade.composeAll layers modes) = [] ∧
      (gathering detailed cache layers modes).errors = [] ∧
      (claiming config detailed cache layers modes).collisions = [] := by
  unfold findings at h
  rw [List.append_eq_nil_iff, List.append_eq_nil_iff, List.map_eq_nil_iff, List.map_eq_nil_iff,
    collisions_of_stopped_eq_none hstopped] at h
  exact ⟨h.1.1, h.1.2, h.2⟩

theorem plan_eq_ok_iff {config : Config} {planned : Planned} :
    plan config detailed cache layers modes = .ok planned ↔
      (gathering detailed cache layers modes).stopped = none ∧
        planned.resolved = (gathering detailed cache layers modes).resolved ∧
        Css.files config (gathering detailed cache layers modes).resolved
          (claiming config detailed cache layers modes).identifiers = .ok planned.files := by
  unfold plan
  simp only
  cases (gathering detailed cache layers modes).stopped with
  | some failure => simp
  | none =>
    cases Css.files config (gathering detailed cache layers modes).resolved
        (claiming config detailed cache layers modes).identifiers with
    | error failure => simp [Except.map]
    | ok files =>
      cases planned with
      | mk resolved files' => simp [Except.map, eq_comm]

/-- What planning can break down for without findings: a tree without a fingerprint, and a style
sheet that lacks an entry. -/
theorem plan_error_eq {config : Config} {failure : Failure}
    (h : plan config detailed cache layers modes = .error failure) :
    (gathering detailed cache layers modes).stopped = some failure ∨
      (gathering detailed cache layers modes).stopped = none ∧
        failure = .breakdown .missingEntry := by
  unfold plan Css.files at h
  simp only at h
  split at h
  · rename_i stopped hstopped
    cases h
    exact .inl hstopped
  · rename_i hstopped
    refine .inr ⟨hstopped, ?_⟩
    split at h
    · cases h
      rfl
    · cases h

theorem outcome_formatting {resolved : ByMode ResolvedTree}
    {identifiers : OrderedMap TokenPath String} :
    (formatting task progress resolved identifiers).outcome =
      (Css.files task.config resolved identifiers).map (Planned.mk resolved) := by
  unfold formatting
  cases Css.files task.config resolved identifiers with
  | error failure => rfl
  | ok files => rfl

theorem outcome_resolving_of_settled {all : ResolvedAll}
    (hall : resolveAll task.options.dryRun task.detailed progress.cache composed = all)
    (h : all.stopped = none) : (resolving task progress composed).outcome = .ok all := by
  unfold resolving
  simp only [Progress.cache_enter, hall]
  rw [h]

theorem outcome_resolving_of_stopped {all : ResolvedAll} {failure : Failure}
    (hall : resolveAll task.options.dryRun task.detailed progress.cache composed = all)
    (h : all.stopped = some failure) :
    (resolving task progress composed).outcome = .error failure := by
  unfold resolving
  simp only [Progress.cache_enter, hall]
  rw [h]

/-! ## Checking dry -/

theorem cache_composing {composed : ByMode TokenTree} :
    (composing task progress layers composed).progress.cache = progress.cache := by
  unfold composing
  simp only
  split <;> rfl

theorem outcome_composing_of_dry (hdry : task.options.dryRun = true)
    {composed : ByMode TokenTree} :
    (composing task progress layers composed).outcome =
      .ok ((Cascade.coverageGaps composed).map BuildError.coverage) := by
  unfold composing
  cases Cascade.coverageGaps composed <;> simp only [hdry]

/-- Composing leaves the cache as it is, so resolving goes on from there. -/
theorem gathering_after_composing {composed : ByMode TokenTree} :
    resolveAll true task.detailed (composing task progress layers composed).progress.cache
        (Cascade.composeAll layers modes) =
      gathering task.detailed progress.cache layers modes := by
  rw [cache_composing]
  rfl

/-- Formatting gives what a build without findings plans. -/
theorem outcome_formatting_eq_plan
    (h : (gathering detailed cache layers modes).stopped = none) :
    (formatting task progress (gathering detailed cache layers modes).resolved
        (claiming task.config detailed cache layers modes).identifiers).outcome =
      plan task.config detailed cache layers modes := by
  rw [outcome_formatting]
  unfold plan
  simp only [h]

/-- A dry build goes through all checks and ends with all that they find, unless resolving breaks
down. -/
theorem outcome_checking_of_dry (hdry : task.options.dryRun = true) :
    (checking task progress layers modes).outcome =
      match (gathering task.detailed progress.cache layers modes).stopped,
        findings task.config task.detailed progress.cache layers modes with
      | some failure, _ => .error failure
      | none, [] => plan task.config task.detailed progress.cache layers modes
      | none, found => .error (.collected found) := by
  unfold checking
  simp only
  rw [Step.andThen_of_ok (outcome_composing_of_dry hdry)]
  cases hstopped : (gathering task.detailed progress.cache layers modes).stopped with
  | some failure =>
    exact Step.outcome_andThen_of_error
      (outcome_resolving_of_stopped (by rw [hdry, gathering_after_composing]) hstopped)
  | none =>
    rw [Step.andThen_of_ok
      (outcome_resolving_of_settled (by rw [hdry, gathering_after_composing]) hstopped)]
    cases hfound : findings task.config task.detailed progress.cache layers modes with
    | nil =>
      unfold findings at hfound
      rw [collisions_of_stopped_eq_none hstopped] at hfound
      unfold claiming at hfound
      rw [Step.andThen_of_ok (by unfold naming; simp only [hdry, hfound]; rfl)]
      exact outcome_formatting_eq_plan hstopped
    | cons first others =>
      unfold findings at hfound
      rw [collisions_of_stopped_eq_none hstopped] at hfound
      unfold claiming at hfound
      rw [Step.outcome_andThen_of_error (by unfold naming; simp only [hdry, hfound]; rfl)]

/-! ## Checking strictly -/

theorem outcome_composing_of_gap (hnormal : task.options.dryRun = false)
    {composed : ByMode TokenTree} {gap : CoverageGap} {others : List CoverageGap}
    (h : Cascade.coverageGaps composed = gap :: others) :
    (composing task progress layers composed).outcome = .error (.error (.coverage gap)) := by
  unfold composing
  simp only [h, hnormal]

theorem outcome_composing_of_no_gap {composed : ByMode TokenTree}
    (h : Cascade.coverageGaps composed = []) :
    (composing task progress layers composed).outcome = .ok [] := by
  unfold composing
  simp only [h]
  rfl

theorem outcome_resolving_of_error (hnormal : task.options.dryRun = false) {all : ResolvedAll}
    {first : BuildError} {others : List BuildError}
    (hall : resolveAll true task.detailed progress.cache composed = all)
    (h : all.errors = first :: others) :
    (resolving task progress composed).outcome = .error (.error first) := by
  rw [← hall] at h
  exact outcome_resolving_of_stopped (by rw [hnormal]) (resolveAll_strict_of_errors_eq_cons h)

/-- Without an error to find, a normal build resolves as a gathering one does. -/
theorem outcome_resolving_of_no_error (hnormal : task.options.dryRun = false) {all : ResolvedAll}
    (hall : resolveAll true task.detailed progress.cache composed = all) (h : all.errors = []) :
    (resolving task progress composed).outcome =
      match all.stopped with
      | some failure => .error failure
      | none => .ok all := by
  have hall' : resolveAll task.options.dryRun task.detailed progress.cache composed = all := by
    rw [hnormal, resolveAll_strict_of_errors_eq_nil (hall ▸ h), hall]
  split
  · exact outcome_resolving_of_stopped hall' ‹_›
  · exact outcome_resolving_of_settled hall' ‹_›

/-- A normal build stops at the first thing that its checks find. -/
theorem outcome_checking_of_normal (hnormal : task.options.dryRun = false) :
    (checking task progress layers modes).outcome =
      match findings task.config task.detailed progress.cache layers modes with
      | [] => plan task.config task.detailed progress.cache layers modes
      | first :: _ => .error (.error first) := by
  unfold checking findings
  simp only
  cases hgaps : Cascade.coverageGaps (Cascade.composeAll layers modes) with
  | cons gap others =>
    rw [Step.outcome_andThen_of_error (outcome_composing_of_gap hnormal hgaps)]
    rfl
  | nil =>
    rw [Step.andThen_of_ok (outcome_composing_of_no_gap hgaps)]
    cases herrors : (gathering task.detailed progress.cache layers modes).errors with
    | cons first others =>
      rw [Step.outcome_andThen_of_error
        (outcome_resolving_of_error hnormal gathering_after_composing herrors)]
      rfl
    | nil =>
      have hresolving := outcome_resolving_of_no_error hnormal
        (gathering_after_composing : resolveAll true _ (composing task progress layers
          (Cascade.composeAll layers modes)).progress.cache _ = _) herrors
      cases hstopped : (gathering task.detailed progress.cache layers modes).stopped with
      | some failure =>
        rw [hstopped] at hresolving
        rw [Step.outcome_andThen_of_error hresolving]
        unfold collisions plan
        simp only [hstopped]
        rfl
      | none =>
        rw [hstopped] at hresolving
        rw [Step.andThen_of_ok hresolving, collisions_of_stopped_eq_none hstopped]
        cases hcollisions : (claiming task.config task.detailed progress.cache layers
            modes).collisions with
        | cons collision others =>
          unfold claiming at hcollisions
          rw [Step.outcome_andThen_of_error
            (by unfold naming; simp only [hnormal, hcollisions]; rfl)]
          rfl
        | nil =>
          unfold claiming at hcollisions
          rw [Step.andThen_of_ok (by unfold naming; simp only [hnormal, hcollisions]; rfl)]
          exact outcome_formatting_eq_plan hstopped

/-- The checks go through, dry or not, if they find nothing, resolving does not break down, and the
style sheets lack no entry. -/
theorem checking_eq_ok_iff {planned : Planned} :
    (checking task progress layers modes).outcome = .ok planned ↔
      findings task.config task.detailed progress.cache layers modes = [] ∧
        plan task.config task.detailed progress.cache layers modes = .ok planned := by
  cases hdry : task.options.dryRun with
  | true =>
    rw [outcome_checking_of_dry hdry]
    cases hstopped : (gathering task.detailed progress.cache layers modes).stopped with
    | some failure => simp [plan, hstopped]
    | none =>
      cases findings task.config task.detailed progress.cache layers modes with
      | nil => simp
      | cons first others => simp
  | false =>
    rw [outcome_checking_of_normal hdry]
    cases findings task.config task.detailed progress.cache layers modes with
    | nil => simp
    | cons first others => simp

/-- The checks break down only where planning without findings does, and a dry build where resolving
does, whatever it has found before. -/
theorem checking_eq_breakdown {cause : Breakdown}
    (h : (checking task progress layers modes).outcome = .error (.breakdown cause)) :
    (findings task.config task.detailed progress.cache layers modes = [] ∨
        (gathering task.detailed progress.cache layers modes).stopped =
          some (.breakdown cause)) ∧
      plan task.config task.detailed progress.cache layers modes = .error (.breakdown cause) := by
  cases hdry : task.options.dryRun with
  | true =>
    rw [outcome_checking_of_dry hdry] at h
    cases hstopped : (gathering task.detailed progress.cache layers modes).stopped with
    | some failure =>
      rw [hstopped] at h
      cases h
      exact ⟨.inr rfl, by unfold plan; simp only [hstopped]⟩
    | none =>
      rw [hstopped] at h
      cases hfound : findings task.config task.detailed progress.cache layers modes with
      | nil =>
        rw [hfound] at h
        exact ⟨.inl rfl, h⟩
      | cons first others =>
        rw [hfound] at h
        cases h
  | false =>
    rw [outcome_checking_of_normal hdry] at h
    cases hfound : findings task.config task.detailed progress.cache layers modes with
    | nil =>
      rw [hfound] at h
      exact ⟨.inl rfl, h⟩
    | cons first others =>
      rw [hfound] at h
      cases h

/-! ## From the start -/

theorem outcome_planning_of_refused_modes {e : BuildError}
    (h : selectModes task.config task.options.modes = .error e) :
    (planning task progress).outcome = .error (.error e) := by
  rw [planning_eq]
  refine Step.outcome_andThen_of_error ?_
  unfold selecting
  rw [h]
  rfl

theorem planning_of_modes (h : selectModes task.config task.options.modes = .ok modes) :
    planning task progress =
      (loading task progress).andThen fun loaded layers => checking task loaded layers modes := by
  rw [planning_eq, Step.andThen_of_ok (by unfold selecting; rw [h]; rfl)]
  rfl

theorem cache_loading : (loading task progress).progress.cache = progress.cache := by
  unfold loading
  simp only
  split <;> rfl

theorem outcome_loading {loaded : Loading}
    (h : Store.load task.options.dryRun task.tree progress.store task.config.layers = loaded) :
    (loading task progress).outcome =
      match loaded.stopped, loaded.errors with
      | some failure, _ => .error failure
      | none, first :: rest => .error (.collected (first :: rest))
      | none, [] => .ok loaded.layers := by
  unfold loading
  simp only [Progress.store_enter, h]
  cases loaded.stopped with
  | some failure => rfl
  | none =>
    cases loaded.errors with
    | nil => rfl
    | cons first rest => rfl

/-- Loading goes through if nothing stops it and it finds no fault. -/
theorem clean_of_loading_eq_ok {layers : List Layer}
    (h : (loading task progress).outcome = .ok layers) :
    (Store.load true task.tree progress.store task.config.layers).stopped = none ∧
      (Store.load true task.tree progress.store task.config.layers).errors = [] := by
  rw [outcome_loading rfl] at h
  split at h
  · cases h
  · cases h
  · exact Store.load_gathering_of_clean ‹_› ‹_›

/-- A failure that stops loading ends planning. -/
theorem outcome_planning_of_stopped {failure : Failure}
    (hmodes : selectModes task.config task.options.modes = .ok modes)
    (hstopped : (Store.load task.options.dryRun task.tree progress.store
      task.config.layers).stopped = some failure) :
    (planning task progress).outcome = .error failure := by
  rw [planning_of_modes hmodes]
  refine Step.outcome_andThen_of_error ?_
  rw [outcome_loading rfl, hstopped]

/-- The faults that a dry build gathers while it loads end its planning. -/
theorem outcome_planning_of_faults {first : BuildError} {others : List BuildError}
    (hmodes : selectModes task.config task.options.modes = .ok modes)
    (hdry : task.options.dryRun = true)
    (hstopped : (Store.load true task.tree progress.store task.config.layers).stopped = none)
    (herrors : (Store.load true task.tree progress.store task.config.layers).errors =
      first :: others) :
    (planning task progress).outcome = .error (.collected (first :: others)) := by
  rw [planning_of_modes hmodes]
  refine Step.outcome_andThen_of_error ?_
  rw [outcome_loading (by rw [hdry]), hstopped, herrors]

/-- If loading goes through, planning goes on with the checks. -/
theorem planning_of_loaded (hmodes : selectModes task.config task.options.modes = .ok modes)
    (hstopped : (Store.load true task.tree progress.store task.config.layers).stopped = none)
    (herrors : (Store.load true task.tree progress.store task.config.layers).errors = []) :
    planning task progress = checking task (loading task progress).progress
      (Store.load true task.tree progress.store task.config.layers).layers modes := by
  have hsame : Store.load task.options.dryRun task.tree progress.store task.config.layers =
      Store.load true task.tree progress.store task.config.layers := by
    cases task.options.dryRun with
    | true => rfl
    | false => exact Store.load_strict_of_errors_eq_nil herrors
  have hloading : (loading task progress).outcome =
      .ok (Store.load true task.tree progress.store task.config.layers).layers := by
    rw [outcome_loading hsame, hstopped, herrors]
  rw [planning_of_modes hmodes, Step.andThen_of_ok hloading]

/-- If loading goes through, the checks decide how planning ends. -/
theorem outcome_planning_of_loaded (task : Task) (progress : Progress)
    (hmodes : selectModes task.config task.options.modes = .ok modes)
    (hstopped : (Store.load true task.tree progress.store task.config.layers).stopped = none)
    (herrors : (Store.load true task.tree progress.store task.config.layers).errors = []) :
    ∃ loaded, loaded.cache = progress.cache ∧
      (planning task progress).outcome =
        (checking task loaded
          (Store.load true task.tree progress.store task.config.layers).layers modes).outcome :=
  ⟨_, cache_loading, by rw [planning_of_loaded hmodes hstopped herrors]⟩

/-- Planning succeeds, dry or not, exactly if the modes are known, all documents load, no check
finds anything, and neither resolving nor formatting breaks down. -/
theorem planning_eq_ok_iff {planned : Planned} :
    (planning task progress).outcome = .ok planned ↔
      ∃ modes, selectModes task.config task.options.modes = .ok modes ∧
        (Store.load true task.tree progress.store task.config.layers).stopped = none ∧
        (Store.load true task.tree progress.store task.config.layers).errors = [] ∧
        findings task.config task.detailed progress.cache
          (Store.load true task.tree progress.store task.config.layers).layers modes = [] ∧
        plan task.config task.detailed progress.cache
          (Store.load true task.tree progress.store task.config.layers).layers modes =
            .ok planned := by
  constructor
  · intro hplanned
    cases hmodes : selectModes task.config task.options.modes with
    | error e =>
      rw [outcome_planning_of_refused_modes hmodes] at hplanned
      cases hplanned
    | ok modes =>
      have hloading := hplanned
      rw [planning_of_modes hmodes] at hloading
      obtain ⟨layers, hlayers, _⟩ := Step.andThen_eq_ok hloading
      obtain ⟨hstopped, herrors⟩ := clean_of_loading_eq_ok hlayers
      obtain ⟨loaded, hcache, houtcome⟩ :=
        outcome_planning_of_loaded task progress hmodes hstopped herrors
      rw [houtcome, checking_eq_ok_iff, hcache] at hplanned
      exact ⟨modes, rfl, hstopped, herrors, hplanned⟩
  · rintro ⟨modes, hmodes, hstopped, herrors, hplan⟩
    obtain ⟨loaded, hcache, houtcome⟩ :=
      outcome_planning_of_loaded task progress hmodes hstopped herrors
    rw [houtcome, checking_eq_ok_iff, hcache]
    exact hplan

end Build

/-! ## The whole run -/

/-- What a run comes to before it writes: the files it is about to write, or its failure. -/
def Pipeline.plan (refuses : Output.Refusals) (pipeline : Pipeline) (tree : FileTree)
    (options : BuildOptions) : Except Failure Build.Planned :=
  (Build.planning (pipeline.task refuses tree options) (pipeline.start options)).outcome

namespace Pipeline

variable {refuses : Output.Refusals} {pipeline : Pipeline} {tree : FileTree}
  {options : BuildOptions}

/-- A run that comes to a failure before it writes ends with this failure and the tree it found. -/
theorem buildUnder_of_plan_error {failure : Failure}
    (h : pipeline.plan refuses tree options = .error failure) :
    (pipeline.buildUnder refuses tree options).result = .error failure ∧
      (pipeline.buildUnder refuses tree options).tree = tree := by
  unfold plan at h
  unfold buildUnder Build.stages
  simp only [h]
  exact ⟨rfl, rfl⟩

/-- A run that succeeds yields what it comes to before it writes. -/
theorem plan_of_buildUnder_eq_ok {result : BuildResult}
    (h : (pipeline.buildUnder refuses tree options).result = .ok result) :
    pipeline.plan refuses tree options = .ok ⟨result.resolved, result.files⟩ := by
  cases hplan : pipeline.plan refuses tree options with
  | error failure =>
    rw [(buildUnder_of_plan_error hplan).1] at h
    cases h
  | ok planned =>
    unfold plan at hplan
    unfold buildUnder Build.stages Build.writing at h
    simp only [hplan] at h
    split at h
    · cases h
      rfl
    · split at h
      · cases h
      · cases h
      · cases h
        rfl

end Pipeline

end DesignTokens
