import DesignTokens.Proofs.Build.Stages
import DesignTokens.Proofs.Resolution.Counts
import DesignTokens.Proofs.Store.Failures
import Mathlib.Algebra.BigOperators.Ring.Finset
/-!
# Counters of a dry build

The checks of a dry build set all counters of its report, and what they count is what there is to
find in the built modes.  When the build has failed, its errors are counted anew where a counter is
still zero; this changes nothing, since a counter is zero only if there are no errors of its kind.
-/

set_option autoImplicit false

namespace DesignTokens

/-! ## Counters -/

namespace Report

/-- What a report counts of its errors. -/
structure Counters where
  gaps : Nat
  unresolved : Nat
  cycles : Nat
  collisions : Nat
  deriving DecidableEq, Repr

/-- The counters of a report. -/
def counters (report : Report) : Counters :=
  ⟨report.coverageMismatches, report.unresolvedTokens, report.cycleDetections, report.collisions⟩

/-- A counter is zero only if there are no errors of its kind. -/
structure Counters.Covers (counters : Counters) (errors : List BuildError) : Prop where
  gaps : counters.gaps = 0 → errors.countP isCoverageGap = 0
  unresolved : counters.unresolved = 0 → errors.countP isResolutionError = 0
  cycles : counters.cycles = 0 → errors.countP isCycle = 0
  collisions : counters.collisions = 0 → errors.countP isCollision = 0

/-- No counter counts faults of documents. -/
theorem Counters.covers_of_faults (counters : Counters) {errors : List BuildError}
    (h : ∀ e ∈ errors, Failure.isFault (.error e)) : counters.Covers errors := by
  have hcount {kind : BuildError → Bool}
      (hkind : ∀ name fault place, kind (.document name fault place) = false) :
      errors.countP kind = 0 := by
    refine List.countP_eq_zero.mpr fun e he => ?_
    have hfault := h e he
    cases e with
    | document name fault place => rw [hkind]; exact Bool.false_ne_true
    | _ => cases hfault
  exact ⟨fun _ => hcount fun _ _ _ => rfl, fun _ => hcount fun _ _ _ => rfl,
    fun _ => hcount fun _ _ _ => rfl, fun _ => hcount fun _ _ _ => rfl⟩

theorem countUnless_eq_self {counter : Nat} {kind : BuildError → Bool} {errors : List BuildError}
    (h : counter = 0 → errors.countP kind = 0) : countUnless counter kind errors = counter := by
  unfold countUnless
  split
  · rename_i hzero
    rw [hzero, h hzero]
  · rfl

/-- Counters that cover the errors stay what they are. -/
theorem counters_fail {report : Report} {errors : List BuildError}
    (h : report.counters.Covers errors) : (report.fail errors).counters = report.counters := by
  unfold counters fail
  simp only [Counters.mk.injEq]
  exact ⟨countUnless_eq_self h.gaps, countUnless_eq_self h.unresolved,
    countUnless_eq_self h.cycles, countUnless_eq_self h.collisions⟩

/-- A failed resolution is neither a gap of coverage nor a collision. -/
theorem kind_of_isResolutionError {e : BuildError} (h : isResolutionError e) :
    isCoverageGap e = false ∧ isCollision e = false := by
  cases e with
  | unresolved broken => exact ⟨rfl, rfl⟩
  | cyclic loop => exact ⟨rfl, rfl⟩
  | _ => cases h

end Report

namespace Build

variable {task : Task} {progress : Progress} {config : Config} {detailed : Bool}
  {cache : ResolutionCache} {layers : List Layer} {modes : List String}

/-! ## Counters of the stages -/

theorem counters_loading :
    (loading task progress).progress.report.counters = progress.report.counters := by
  unfold loading
  simp only
  split <;> rfl

theorem counters_composing {composed : ByMode TokenTree} :
    (composing task progress layers composed).progress.report.counters =
      { progress.report.counters with gaps := (Cascade.coverageGaps composed).length } := by
  unfold composing
  simp only
  split <;> rfl

theorem counters_resolving {composed : ByMode TokenTree} :
    let all := resolveAll task.options.dryRun task.detailed progress.cache composed
    (resolving task progress composed).progress.report.counters =
      { progress.report.counters with
        unresolved := all.unresolved, cycles := all.errors.countP Report.isCycle } := by
  unfold resolving
  simp only
  split <;> rfl

theorem counters_naming {gathered : List BuildError} {resolved : ByMode ResolvedTree} :
    (naming task progress gathered resolved).progress.report.counters =
      { progress.report.counters with
        collisions := (Claims.ofPaths (emittedPaths task.config resolved)).collisions.length } := by
  unfold naming
  simp only
  split
  · split <;> rfl
  · split <;> rfl

theorem counters_formatting {resolved : ByMode ResolvedTree}
    {identifiers : OrderedMap TokenPath String} :
    (formatting task progress resolved identifiers).progress.report.counters =
      progress.report.counters := by
  unfold formatting
  simp only
  split <;> rfl

/-- What is found in loaded layers, in numbers. -/
def counts (config : Config) (detailed : Bool) (cache : ResolutionCache) (layers : List Layer)
    (modes : List String) : Report.Counters :=
  { gaps := (Cascade.coverageGaps (Cascade.composeAll layers modes)).length
    unresolved := (gathering detailed cache layers modes).unresolved
    cycles := (gathering detailed cache layers modes).errors.countP Report.isCycle
    collisions := (claiming config detailed cache layers modes).collisions.length }

/-- Where resolving goes through, the checks of a dry build go on with all that it gathers. -/
theorem outcome_resolving_of_gathering (hdry : task.options.dryRun = true)
    (hgathered : (gathering task.detailed progress.cache layers modes).stopped = none) :
    (resolving task (composing task progress layers (Cascade.composeAll layers modes)).progress
        (Cascade.composeAll layers modes)).outcome =
      .ok (gathering task.detailed progress.cache layers modes) :=
  outcome_resolving_of_settled (by rw [hdry, gathering_after_composing]) hgathered

/-- Unless they break down, the checks of a dry build set every counter. -/
theorem counters_checking_of_dry (hdry : task.options.dryRun = true)
    (hgathered : (gathering task.detailed progress.cache layers modes).stopped = none) :
    (checking task progress layers modes).progress.report.counters =
      counts task.config task.detailed progress.cache layers modes := by
  unfold checking
  simp only
  rw [Step.andThen_of_ok (outcome_composing_of_dry hdry),
    Step.andThen_of_ok (outcome_resolving_of_gathering hdry hgathered)]
  have hnamed {gathered : List BuildError} : (naming task
      (resolving task
        (composing task progress layers (Cascade.composeAll layers modes)).progress
        (Cascade.composeAll layers modes)).progress gathered
      (gathering task.detailed progress.cache layers modes).resolved).progress.report.counters =
        counts task.config task.detailed progress.cache layers modes := by
    rw [counters_naming, counters_resolving, counters_composing, cache_composing, hdry]
    rfl
  refine Step.progress_andThen (fun after => after.report.counters = _) hnamed ?_
  intro identifiers _
  rw [counters_formatting]
  exact hnamed

/-- Writing is no matter of the counters in a dry build. -/
theorem counters_stages_of_dry (hdry : task.options.dryRun = true) :
    (stages task progress).progress.report.counters =
      (planning task progress).progress.report.counters := by
  unfold stages writing
  simp only [hdry, if_true]
  split <;> rfl

/-- The report of a build that has ended counts what it counted before, if this covers the errors
that it ends with. -/
theorem counters_settle {ending : Ending}
    (h : ∀ failure, ending.outcome = .error failure →
      ending.progress.report.counters.Covers failure.errors) :
    (settle ending).report.counters = ending.progress.report.counters := by
  unfold settle
  simp only
  split
  · rfl
  · rfl
  · rename_i failure _ houtcome
    exact Report.counters_fail (h failure houtcome)

/-! ## What is collected -/

/-- What a dry build collects in loaded layers: the gaps of coverage, then what cannot be resolved
in one mode after the other, then the collisions. -/
def collected (config : Config) (layers : List Layer) (modes : List String) : List BuildError :=
  (Cascade.coverageGaps (Cascade.composeAll layers modes)).map BuildError.coverage ++
      modes.flatMap (fun mode => (Cascade.resolution layers mode).errors) ++
    (Claims.ofPaths
      (emittedPaths config (Cascade.resolvedTrees layers modes))).collisions.map
        BuildError.collision

theorem findings_eq_collected (config : Config) (detailed : Bool) (hmodes : modes.Nodup)
    (hmemo : Remembers cache layers modes)
    (hwithin : Cascade.WithinDigits (Cascade.composeAll layers modes)) :
    findings config detailed cache layers modes = collected config layers modes := by
  obtain ⟨hresolved, herrors⟩ := gathering_eq detailed hmodes hmemo hwithin
  unfold findings collected
  rw [collisions_of_stopped_eq_none (stopped_gathering_eq_none_iff.mpr hwithin), claiming,
    hresolved, herrors]

/-- What is left out of the resolved trees, mode by mode. -/
theorem unresolved_resolveAll {composed : List (String × TokenTree)}
    (hwithin : Cascade.WithinDigits composed) :
    (resolveAll true detailed cache composed).unresolved =
      (List.zipWith (fun entry resolved => entry.2.length - resolved.2.length) composed
        (resolveAll true detailed cache composed).resolved).sum := by
  induction composed generalizing cache with
  | nil => rfl
  | cons entry rest ih =>
    obtain ⟨mode, tree⟩ := entry
    obtain ⟨htree, hrest⟩ := List.forall_mem_cons.mp hwithin
    have hstopped : (cache.resolve true tree mode).1.stopped = none :=
      ResolutionCache.stopped_resolve_true (tree.isRenderable_iff.mpr htree) cache mode
    rw [resolveAll]
    simp only [hstopped, List.zipWith_cons_cons, List.sum_cons]
    rw [ih hrest]

theorem unresolved_gathering (detailed : Bool) (hmodes : modes.Nodup)
    (hmemo : Remembers cache layers modes)
    (hwithin : Cascade.WithinDigits (Cascade.composeAll layers modes)) :
    (gathering detailed cache layers modes).unresolved =
      (modes.map fun mode => (Cascade.compose layers mode).length -
        (Cascade.resolution layers mode).resolved.length).sum := by
  have hresolved := (gathering_eq detailed hmodes hmemo hwithin).1
  unfold gathering at hresolved ⊢
  rw [unresolved_resolveAll hwithin, hresolved, Cascade.composeAll_of_nodup layers hmodes]
  unfold Cascade.resolvedTrees
  rw [List.zipWith_map, List.zipWith_self]

/-! ## Kinds of errors -/

theorem isResolutionError_of_mem_resolution {mode : String} {e : BuildError}
    (h : e ∈ (Cascade.resolution layers mode).errors) : Report.isResolutionError e :=
  ResolutionCache.isResolutionError_of_mem_errors (Resolution.Memo.sound_nil _) h

/-- What cannot be resolved is an error of no other kind. -/
theorem countP_resolution_eq_zero {kind : BuildError → Bool}
    (hkind : ∀ e, Report.isResolutionError e → kind e = false) :
    (modes.flatMap fun mode => (Cascade.resolution layers mode).errors).countP kind = 0 := by
  refine List.countP_eq_zero.mpr fun e he => ?_
  obtain ⟨mode, _, hmem⟩ := List.mem_flatMap.mp he
  rw [hkind e (isResolutionError_of_mem_resolution hmem)]
  exact Bool.false_ne_true

theorem countP_isCoverageGap_collected :
    (collected config layers modes).countP Report.isCoverageGap =
      (Cascade.coverageGaps (Cascade.composeAll layers modes)).length := by
  unfold collected
  rw [List.countP_append, List.countP_append,
    countP_resolution_eq_zero fun _ h => (Report.kind_of_isResolutionError h).1, List.countP_map,
    List.countP_map]
  simp [Function.comp_def, Report.isCoverageGap]

theorem countP_isCollision_collected :
    (collected config layers modes).countP Report.isCollision = (Claims.ofPaths
      (emittedPaths config (Cascade.resolvedTrees layers modes))).collisions.length := by
  unfold collected
  rw [List.countP_append, List.countP_append,
    countP_resolution_eq_zero fun _ h => (Report.kind_of_isResolutionError h).2, List.countP_map,
    List.countP_map]
  simp [Function.comp_def, Report.isCollision]

theorem countP_isCycle_collected :
    (collected config layers modes).countP Report.isCycle =
      (modes.flatMap fun mode => (Cascade.resolution layers mode).errors).countP
        Report.isCycle := by
  unfold collected
  rw [List.countP_append, List.countP_append, List.countP_map, List.countP_map]
  simp [Function.comp_def, Report.isCycle]

/-! ## What the counters count -/

/-- Pairs of a mode and something that the mode has are counted mode by mode. -/
theorem encard_pairs {α : Type} (hmodes : modes.Nodup) (has : String → Set α) :
    {pair : String × α | pair.1 ∈ modes ∧ pair.2 ∈ has pair.1}.encard =
      (modes.map fun mode => (has mode).encard).sum := by
  induction modes with
  | nil => simp
  | cons mode rest ih =>
    obtain ⟨hnew, hrest⟩ := List.nodup_cons.mp hmodes
    have hset : {pair : String × α | pair.1 ∈ mode :: rest ∧ pair.2 ∈ has pair.1} =
        Prod.mk mode '' has mode ∪ {pair | pair.1 ∈ rest ∧ pair.2 ∈ has pair.1} := by
      ext ⟨other, x⟩
      simp only [Set.mem_ofPred_eq, Set.mem_union, Set.mem_image, Prod.mk.injEq, List.mem_cons]
      constructor
      · rintro ⟨rfl | hother, hx⟩
        · exact .inl ⟨x, hx, rfl, rfl⟩
        · exact .inr ⟨hother, hx⟩
      · rintro (⟨_, hx, rfl, rfl⟩ | ⟨hother, hx⟩)
        · exact ⟨.inl rfl, hx⟩
        · exact ⟨.inr hother, hx⟩
    have hapart : Disjoint (Prod.mk mode '' has mode)
        {pair | pair.1 ∈ rest ∧ pair.2 ∈ has pair.1} := by
      rw [Set.disjoint_left]
      rintro _ ⟨x, _, rfl⟩ ⟨hother, _⟩
      exact hnew hother
    rw [hset, Set.encard_union_eq hapart, (Prod.mk_right_injective mode).encard_image, ih hrest,
      List.map_cons, List.sum_cons]

end Build

/-- The paths of some modes whose references lead to no literal. -/
def Cascade.lost (layers : List Layer) (modes : List String) : Set (String × TokenPath) :=
  {pair | pair.1 ∈ modes ∧ pair.2 ∈ Resolution.lost (compose layers pair.1)
    (OrderedMap.keys (compose layers pair.1))}

/-- The cycles of some modes' references, in number. -/
noncomputable def Cascade.cycles (layers : List Layer) (modes : List String) : ℕ∞ :=
  (modes.map fun mode => {members | Resolution.IsCycle (compose layers mode) members}.encard).sum

namespace Build

variable {config : Config} {cache : ResolutionCache} {layers : List Layer} {modes : List String}

theorem encard_lost (detailed : Bool) (hmodes : modes.Nodup)
    (hmemo : Remembers cache layers modes)
    (hwithin : Cascade.WithinDigits (Cascade.composeAll layers modes)) :
    (Cascade.lost layers modes).encard = (gathering detailed cache layers modes).unresolved := by
  unfold Cascade.lost
  rw [encard_pairs hmodes fun mode => Resolution.lost (Cascade.compose layers mode)
    (OrderedMap.keys (Cascade.compose layers mode)),
    unresolved_gathering detailed hmodes hmemo hwithin, Nat.cast_list_sum, List.map_map]
  refine congrArg List.sum (List.map_congr_left fun mode hmode => ?_)
  exact ResolutionCache.encard_lost_resolve (isRenderable_compose hmodes hwithin hmode)
    (Cascade.nodup_keys_compose layers mode) (Resolution.Memo.sound_nil _)

theorem encard_cycles (detailed : Bool) (hmodes : modes.Nodup)
    (hmemo : Remembers cache layers modes)
    (hwithin : Cascade.WithinDigits (Cascade.composeAll layers modes)) :
    Cascade.cycles layers modes =
      (gathering detailed cache layers modes).errors.countP Report.isCycle := by
  unfold Cascade.cycles
  rw [(gathering_eq detailed hmodes hmemo hwithin).2, List.countP_flatMap, Nat.cast_list_sum,
    List.map_map]
  refine congrArg List.sum (List.map_congr_left fun mode hmode => ?_)
  exact ResolutionCache.encard_cycles_resolve (isRenderable_compose hmodes hwithin hmode)
    (Resolution.Memo.sound_nil _)

/-- A counter is zero only if nothing of its kind is collected.  An unresolved path is no error
itself; but where no path is lost, no error has a cause that some path leads into. -/
theorem covers_counts (config : Config) (detailed : Bool) (hmodes : modes.Nodup)
    (hmemo : Remembers cache layers modes)
    (hwithin : Cascade.WithinDigits (Cascade.composeAll layers modes)) :
    (counts config detailed cache layers modes).Covers (collected config layers modes) := by
  obtain ⟨hresolved, herrors⟩ := gathering_eq detailed hmodes hmemo hwithin
  constructor
  case gaps =>
    rw [countP_isCoverageGap_collected]
    exact id
  case unresolved =>
    intro hzero
    have hlost := encard_lost detailed hmodes hmemo hwithin
    rw [show (gathering detailed cache layers modes).unresolved = 0 from hzero, Nat.cast_zero,
      Set.encard_eq_zero] at hlost
    have hnone : modes.flatMap (fun mode => (Cascade.resolution layers mode).errors) = [] := by
      refine List.eq_nil_iff_forall_not_mem.mpr fun e he => ?_
      obtain ⟨mode, hmode, hmem⟩ := List.mem_flatMap.mp he
      obtain ⟨path, hpath⟩ :=
        ResolutionCache.nonempty_lost_of_mem_errors (Resolution.Memo.sound_nil _) hmem
      exact Set.eq_empty_iff_forall_notMem.mp hlost (mode, path) ⟨hmode, hpath⟩
    unfold collected
    rw [hnone, List.append_nil, List.countP_append, List.countP_map, List.countP_map]
    simp [Function.comp_def, Report.isResolutionError]
  case cycles =>
    rw [countP_isCycle_collected, ← herrors]
    exact id
  case collisions =>
    rw [countP_isCollision_collected, ← hresolved]
    exact id

/-! ## How a dry build ends -/

variable {task : Task} {progress : Progress}

/-- The checks of a dry build that do not break down go through exactly if there is nothing to
collect. -/
theorem exists_outcome_checking_of_dry (hdry : task.options.dryRun = true) (hmodes : modes.Nodup)
    (hmemo : Remembers progress.cache layers modes)
    (hwithin : Cascade.WithinDigits (Cascade.composeAll layers modes)) :
    ∃ planned, (checking task progress layers modes).outcome =
      if (collected task.config layers modes).isEmpty then .ok planned
      else .error (.collected (collected task.config layers modes)) := by
  have hgathered : (gathering task.detailed progress.cache layers modes).stopped = none :=
    stopped_gathering_eq_none_iff.mpr hwithin
  have hfindings := findings_eq_collected task.config task.detailed hmodes hmemo hwithin
  rw [outcome_checking_of_dry hdry, hgathered, hfindings]
  cases hcollected : collected task.config layers modes with
  | nil =>
    rw [hcollected] at hfindings
    exact exists_plan_of_findings_eq_nil hgathered hfindings
  | cons first others => exact ⟨default, rfl⟩

/-- A dry build ends as its planning does. -/
theorem outcome_stages_of_dry (hdry : task.options.dryRun = true) :
    (stages task progress).outcome = (planning task progress).outcome := by
  unfold stages writing
  simp only [hdry, if_true]
  split <;> rename_i houtcome <;> exact houtcome.symm

/-- A step with a course leaves a progress with a trace, however it ends. -/
theorem Step.Traces.exists_traced {α : Type} {step : Step α} {entered course : List Stage}
    (h : step.Traces entered course) : ∃ later, Traced step.progress (entered ++ later) := by
  cases houtcome : step.outcome with
  | ok value => exact ⟨course, h.ok value houtcome⟩
  | error failure =>
    obtain ⟨_, reached, _, htraced, _⟩ := h.error failure houtcome
    exact ⟨reached, htraced⟩

/-- The checks of a dry build always come to resolving. -/
theorem traced_resolving_of_dry (layers : List Layer) (modes : List String)
    (hdry : task.options.dryRun = true) {entered : List Stage} (h : Traced progress entered) :
    Traced (resolving task
        (composing task progress layers (Cascade.composeAll layers modes)).progress
        (Cascade.composeAll layers modes)).progress (entered ++ [.composing, .resolving]) := by
  rw [show entered ++ [.composing, .resolving] = entered ++ [.composing] ++ [.resolving] by simp]
  exact traced_resolving ((traces_composing h).ok _ (outcome_composing_of_dry hdry))

/-- Checks that break down do so while they resolve. -/
theorem traced_checking_of_breakdown (hdry : task.options.dryRun = true) {failure : Failure}
    (hgathered : (gathering task.detailed progress.cache layers modes).stopped = some failure)
    {entered : List Stage} (h : Traced progress entered) :
    Traced (checking task progress layers modes).progress
      (entered ++ [.composing, .resolving]) := by
  unfold checking
  simp only
  rw [Step.andThen_of_ok (outcome_composing_of_dry hdry), Step.andThen_of_error
    (outcome_resolving_of_stopped (by rw [hdry, gathering_after_composing]) hgathered)]
  exact traced_resolving_of_dry layers modes hdry h

/-- Other checks may go on from there. -/
theorem exists_traced_checking_of_dry (hdry : task.options.dryRun = true)
    (hgathered : (gathering task.detailed progress.cache layers modes).stopped = none)
    {entered : List Stage} (h : Traced progress entered) :
    ∃ later, Traced (checking task progress layers modes).progress
      (entered ++ [.composing, .resolving] ++ later) := by
  unfold checking
  simp only
  rw [Step.andThen_of_ok (outcome_composing_of_dry hdry),
    Step.andThen_of_ok (outcome_resolving_of_gathering hdry hgathered)]
  have hresolved := traced_resolving_of_dry layers modes hdry h
  have hentered := List.append_ne_nil_of_right_ne_nil entered
    (List.cons_ne_nil Stage.composing [.resolving])
  refine Step.progress_andThen
    (fun after => ∃ later, Traced after (entered ++ [.composing, .resolving] ++ later))
    (traces_naming hresolved hentered).exists_traced fun identifiers hnames => ?_
  have hnamed := (traces_naming hresolved hentered).ok identifiers hnames
  rw [List.append_nil] at hnamed
  exact (traces_formatting hnamed).exists_traced

/-- A build whose planning fails ends there. -/
theorem progress_stages_of_planning_error {failure : Failure}
    (h : (planning task progress).outcome = .error failure) :
    (stages task progress).progress = (planning task progress).progress := by
  unfold stages
  simp only [h]

theorem exists_traced_stages_of_dry (hdry : task.options.dryRun = true) {entered : List Stage}
    (h : Traced (planning task progress).progress entered) :
    ∃ later, Traced (stages task progress).progress (entered ++ later) := by
  cases hplan : (planning task progress).outcome with
  | ok planned =>
    rw [stages_of_planning_ok hplan]
    unfold writing
    rw [if_pos hdry]
    exact ⟨_, h.enter .done⟩
  | error failure =>
    rw [progress_stages_of_planning_error hplan]
    exact ⟨[], by rwa [List.append_nil]⟩

/-- A dry build that fails to load ends there, and counts what it has counted before. -/
theorem stages_of_loading_error (task : Task) (progress : Progress)
    (hdry : task.options.dryRun = true)
    (hmodes : selectModes task.config task.options.modes = .ok modes) {failure : Failure}
    (hloading : (loading task progress).outcome = .error failure)
    (hcovers : progress.report.counters.Covers failure.errors) :
    (stages task progress).outcome = .error failure ∧
      (stages task progress).progress = (loading task progress).progress ∧
      (settle (stages task progress)).report.counters = progress.report.counters := by
  have hplanning : planning task progress =
      ⟨.error failure, (loading task progress).progress⟩ := by
    rw [planning_of_modes hmodes, Step.andThen_of_error hloading]
  have hprogress : (stages task progress).progress = (loading task progress).progress := by
    rw [progress_stages_of_planning_error (by rw [hplanning]), hplanning]
  have hcounters : (stages task progress).progress.report.counters = progress.report.counters := by
    rw [hprogress, counters_loading]
  have houtcome : (stages task progress).outcome = .error failure := by
    rw [outcome_stages_of_dry hdry, hplanning]
  refine ⟨houtcome, hprogress, ?_⟩
  rw [counters_settle, hcounters]
  intro failure' hfailure
  rw [houtcome, Except.error.injEq] at hfailure
  rwa [hcounters, ← hfailure]

/-- A dry build that comes past loading to a tree without a fingerprint ends while it resolves. -/
theorem stages_of_beyond (task : Task) (progress : Progress) (hdry : task.options.dryRun = true)
    (hmodes : selectModes task.config task.options.modes = .ok modes)
    (hstopped : (Store.load true task.tree progress.store task.config.layers).stopped = none)
    (herrors : (Store.load true task.tree progress.store task.config.layers).errors = [])
    (hlayers : (Store.load true task.tree progress.store task.config.layers).layers = layers)
    (hbeyond : ¬ Cascade.WithinDigits (Cascade.composeAll layers modes))
    (htraced : Traced progress []) :
    (stages task progress).outcome = .error (.breakdown .integerTooLong) ∧
      Traced (stages task progress).progress [.loading, .composing, .resolving] := by
  have hplanning := planning_of_loaded hmodes hstopped herrors
  rw [hlayers] at hplanning
  have hgathered : (gathering task.detailed (loading task progress).progress.cache layers
      modes).stopped = some (.breakdown .integerTooLong) :=
    (stopped_resolveAll_of_collect _ _ _).2 hbeyond
  have houtcome : (planning task progress).outcome = .error (.breakdown .integerTooLong) := by
    rw [hplanning, outcome_checking_of_dry hdry, hgathered]
  refine ⟨(outcome_stages_of_dry hdry).trans houtcome, ?_⟩
  rw [progress_stages_of_planning_error houtcome, hplanning]
  exact traced_checking_of_breakdown hdry hgathered (traced_loading htraced)

/-- A dry build that comes past loading collects what there is, and counts it. -/
theorem stages_of_loaded (task : Task) (progress : Progress)
    (hdry : task.options.dryRun = true) (hvalid : task.config.Valid)
    (hmodes : selectModes task.config task.options.modes = .ok modes)
    (hstopped : (Store.load true task.tree progress.store task.config.layers).stopped = none)
    (herrors : (Store.load true task.tree progress.store task.config.layers).errors = [])
    (hlayers : (Store.load true task.tree progress.store task.config.layers).layers = layers)
    (hwithin : Cascade.WithinDigits (Cascade.composeAll layers modes))
    (hmemo : Remembers progress.cache layers modes) (htraced : Traced progress []) :
    (∃ planned, (stages task progress).outcome =
        if (collected task.config layers modes).isEmpty then .ok planned
        else .error (.collected (collected task.config layers modes))) ∧
      (∃ later, Traced (stages task progress).progress
        ([.loading, .composing, .resolving] ++ later)) ∧
      (settle (stages task progress)).report.counters =
        counts task.config task.detailed progress.cache layers modes := by
  have hnodup := nodup_of_selectModes hvalid hmodes
  have hplanning := planning_of_loaded hmodes hstopped herrors
  rw [hlayers] at hplanning
  have hloaded : (loading task progress).progress.cache = progress.cache := cache_loading
  have hgathered : (gathering task.detailed (loading task progress).progress.cache layers
      modes).stopped = none :=
    stopped_gathering_eq_none_iff.mpr hwithin
  have hcounters : (stages task progress).progress.report.counters =
      counts task.config task.detailed progress.cache layers modes := by
    rw [counters_stages_of_dry hdry, hplanning, counters_checking_of_dry hdry hgathered, hloaded]
  obtain ⟨planned, houtcome⟩ :=
    exists_outcome_checking_of_dry hdry hnodup (hloaded ▸ hmemo) hwithin
  rw [← hplanning, ← outcome_stages_of_dry hdry] at houtcome
  refine ⟨⟨planned, houtcome⟩, ?_, ?_⟩
  · obtain ⟨later, hchecked⟩ :=
      exists_traced_checking_of_dry hdry hgathered (traced_loading htraced)
    rw [← hplanning] at hchecked
    obtain ⟨last, hstages⟩ := exists_traced_stages_of_dry hdry hchecked
    exact ⟨later ++ last, hstages⟩
  · rw [counters_settle, hcounters]
    intro failure hfailure
    rw [houtcome] at hfailure
    split at hfailure
    · cases hfailure
    · cases hfailure
      rw [hcounters]
      exact covers_counts _ _ hnodup hmemo hwithin

end Build

end DesignTokens
