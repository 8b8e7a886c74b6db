import DesignTokens.Proofs.Build.AllOrNone
import DesignTokens.Proofs.Build.Breakdown
import DesignTokens.Proofs.Text.Surrogates
/-!
# The stages of a run

A run tells in its log which stages it enters.  It enters them in one order, and goes through all of
them exactly if it succeeds; an error ends it in a stage of its own, and the report lists what the
error says.  A breakdown is no error of this kind: it leaves the run in the stage that it came to.
-/

set_option autoImplicit false

namespace DesignTokens

/-! ## Stages in the log -/

namespace Stage

/-- The line that tells of entering a stage. -/
def line (stage : Stage) : LogLine :=
  .info s!"Stage: {stage.name}"

/-- All stages. -/
def all : List Stage :=
  [.idle, .loading, .composing, .resolving, .formatting, .writing, .done, .failed]

/-- The stage that a line tells of entering, if it does. -/
def ofLine? (line : LogLine) : Option Stage :=
  all.find? fun stage => line = stage.line

theorem ofLine?_line (stage : Stage) : ofLine? stage.line = some stage := by
  cases stage <;> decide

/-- A text that is told apart from a line on a stage by how it starts. -/
def Apart (start : String) : Prop :=
  ¬start.toList <+: "Stage: ".toList ∧ ¬"Stage: ".toList <+: start.toList

instance (start : String) : Decidable (Apart start) :=
  inferInstanceAs (Decidable (_ ∧ _))

theorem Apart.append {start : String} (h : Apart start) (rest : String) :
    Apart (start ++ rest) := by
  unfold Apart
  rw [String.toList_append]
  refine ⟨?_, ?_⟩
  · intro hprefix
    exact h.1 ((List.prefix_append _ _).trans hprefix)
  · intro hprefix
    rcases List.prefix_or_prefix_of_prefix hprefix (List.prefix_append _ rest.toList) with
      hstage | hstart
    · exact h.2 hstage
    · exact h.1 hstart

theorem ofLine?_of_level_ne {line : LogLine} (h : line.level ≠ .info) : ofLine? line = none := by
  unfold ofLine?
  rw [List.find?_eq_none]
  intro stage _ heq
  rw [of_decide_eq_true heq] at h
  exact h rfl

theorem ofLine?_of_apart {message : String} (h : Apart message) :
    ofLine? (.info message) = none := by
  unfold ofLine?
  rw [List.find?_eq_none]
  intro stage _ heq
  have hmessage : message = "Stage: " ++ stage.name := congrArg LogLine.message (of_decide_eq_true heq)
  refine h.2 ?_
  rw [hmessage, String.toList_append]
  exact List.prefix_append _ _

end Stage

/-- The stages that a log tells of entering, in order. -/
def stagesEntered (log : List LogLine) : List Stage :=
  log.filterMap Stage.ofLine?

theorem stagesEntered_append (first second : List LogLine) :
    stagesEntered (first ++ second) = stagesEntered first ++ stagesEntered second :=
  List.filterMap_append

theorem stagesEntered_eq_nil_iff {log : List LogLine} :
    stagesEntered log = [] ↔ ∀ line ∈ log, Stage.ofLine? line = none :=
  List.filterMap_eq_nil_iff

/-- Every run shows the stages that it enters. -/
theorem stagesEntered_shownLines (verbose : Bool) (log : List LogLine) :
    stagesEntered (shownLines verbose log) = stagesEntered log := by
  unfold stagesEntered shownLines
  rw [List.filterMap_filter]
  refine List.filterMap_congr fun line _ => ?_
  split
  · rfl
  · rename_i hhidden
    refine (Stage.ofLine?_of_level_ne ?_).symm
    intro hlevel
    rw [hlevel] at hhidden
    simp at hhidden

theorem stagesEntered_map_detail {α : Type} (message : α → String) (xs : List α) :
    stagesEntered (xs.map fun x => .detail (message x)) = [] := by
  rw [stagesEntered_eq_nil_iff, List.forall_mem_map]
  intro x _
  exact Stage.ofLine?_of_level_ne LogLevel.noConfusion

theorem stagesEntered_info {message : String} (h : Stage.Apart message) :
    stagesEntered [.info message] = [] := by
  rw [stagesEntered_eq_nil_iff, List.forall_mem_singleton]
  exact Stage.ofLine?_of_apart h

theorem stagesEntered_line (stage : Stage) : stagesEntered [stage.line] = [stage] := by
  rw [stagesEntered, List.filterMap_cons_some stage.ofLine?_line]
  rfl

/-! ## What else the log tells -/

theorem Store.stagesEntered_loadLines (store : Store) (source : LayerSource)
    (result : Except Failure (Option Layer)) :
    stagesEntered (store.loadLines source result) = [] := by
  unfold loadLines
  split
  · refine stagesEntered_info ?_
    iterate 4 apply Stage.Apart.append
    decide
  · refine stagesEntered_info ?_
    iterate 4 apply Stage.Apart.append
    decide
  · rfl

theorem Store.stagesEntered_log_load (collect : Bool) (tree : FileTree) (store : Store)
    (sources : List LayerSource) : stagesEntered (load collect tree store sources).log = [] := by
  induction sources generalizing store with
  | nil => rfl
  | cons source rest ih =>
    rw [load]
    generalize store.loadLayer tree source = loaded
    obtain ⟨result, read⟩ := loaded
    simp only
    split
    · simp only
      rw [stagesEntered_append, store.stagesEntered_loadLines, ih, List.append_nil]
    · split
      · exact ih read
      · rfl
    · rfl

namespace Build

theorem stagesEntered_resolvedLines (mode : String) (tree : TokenTree) (resolved : ResolvedTree) :
    stagesEntered (resolvedLines mode tree resolved) = [] := by
  have hcount : stagesEntered [.info s!"Resolved mode {mode}: {resolved.length} tokens"] = [] := by
    refine stagesEntered_info ?_
    iterate 4 apply Stage.Apart.append
    decide
  unfold resolvedLines
  simp only
  rw [stagesEntered_append, hcount, List.append_nil, stagesEntered_eq_nil_iff]
  split
  · exact List.forall_mem_nil _
  · rw [List.forall_mem_singleton]
    exact Stage.ofLine?_of_level_ne LogLevel.noConfusion

theorem stagesEntered_resolutionDetails (cache : ResolutionCache) (mode : String)
    (tree : TokenTree) (resolved : ResolvedTree) :
    stagesEntered (resolutionDetails cache mode tree resolved) = [] := by
  unfold resolutionDetails ResolutionCache.bindLines
  rw [stagesEntered_append, List.append_eq_nil_iff]
  constructor
  · split
    · exact stagesEntered_map_detail (fun _ => _) [()]
    · rfl
  · exact stagesEntered_map_detail _ resolved

theorem stagesEntered_log_resolveAll (collect detailed : Bool) (cache : ResolutionCache)
    (composed : List (String × TokenTree)) :
    stagesEntered (resolveAll collect detailed cache composed).log = [] := by
  have hdetails (cache : ResolutionCache) (mode : String) (tree : TokenTree)
      (resolved : ResolvedTree) : stagesEntered
        (if detailed then resolutionDetails cache mode tree resolved else []) = [] := by
    split
    · exact stagesEntered_resolutionDetails cache mode tree resolved
    · rfl
  induction composed generalizing cache with
  | nil => rfl
  | cons entry rest ih =>
    obtain ⟨mode, tree⟩ := entry
    rw [resolveAll]
    simp only
    split
    · exact hdetails ..
    · simp only
      rw [stagesEntered_append, stagesEntered_append, hdetails, stagesEntered_resolvedLines, ih]
      rfl

end Build

/-- No line of a summary tells of entering a stage. -/
theorem Report.apart_of_mem_summary {report : Report} {message : String}
    (h : message ∈ report.summary) : Stage.Apart message := by
  unfold summary elapsedLine at h
  rw [List.mem_append, List.mem_append, List.mem_append] at h
  rcases h with ((hfirst | hcounts) | hlater) | hdry
  · rw [List.mem_singleton.mp hfirst]
    apply Stage.Apart.append
    decide
  · obtain ⟨count, _, rfl⟩ := List.mem_map.mp hcounts
    iterate 3 apply Stage.Apart.append
    decide
  · revert message
    simp only [List.forall_mem_cons]
    refine ⟨?_, ?_, ?_, ?_, List.forall_mem_nil _⟩
    · apply Stage.Apart.append
      decide
    · apply Stage.Apart.append
      decide
    · iterate 4 apply Stage.Apart.append
      decide
    · apply Stage.Apart.append
      decide
  · split at hdry
    · rw [List.mem_singleton.mp hdry]
      iterate 2 apply Stage.Apart.append
      decide
    · cases hdry

theorem Build.stagesEntered_closingLines (report : Report) :
    stagesEntered (closingLines report) = [] := by
  unfold closingLines
  rw [stagesEntered_append, List.append_eq_nil_iff]
  constructor
  · rw [stagesEntered_eq_nil_iff, List.forall_mem_map]
    intro message hmessage
    exact Stage.ofLine?_of_apart (Report.apart_of_mem_summary hmessage)
  · split
    · exact stagesEntered_info (by decide)
    · rfl

namespace Output

theorem stagesEntered_restore (tree : FileTree) (snapshots : List Snapshot) :
    stagesEntered (restore tree snapshots).2 = [] := by
  induction snapshots generalizing tree with
  | nil => rfl
  | cons snapshot rest ih =>
    have hline : Stage.ofLine? (restoreOne tree snapshot).2 = none := by
      refine Stage.ofLine?_of_level_ne ?_
      unfold restoreOne
      simp only
      split <;> exact LogLevel.noConfusion
    rw [restore]
    simp only
    rw [stagesEntered, List.filterMap_cons_none hline]
    exact ih _

theorem stagesEntered_replaceAll (refuses : Refusals) (position : Nat) (tree : FileTree)
    (staged : List Staged) :
    stagesEntered (replaceAll refuses position tree staged).2.2.2 = [] := by
  induction staged generalizing position tree with
  | nil => rfl
  | cons first rest ih =>
    rw [replaceAll]
    simp only
    split
    · rfl
    · rw [stagesEntered, List.filterMap_cons_none (Stage.ofLine?_of_level_ne LogLevel.noConfusion)]
      exact ih _ _

theorem stagesEntered_log_commit (refuses : Refusals) (tree : FileTree) (staged : List Staged)
    (unchanged : List String) :
    stagesEntered (commit refuses tree staged unchanged).log = [] := by
  have hlines := stagesEntered_replaceAll refuses 0 tree staged
  unfold commit
  split
  · rfl
  · generalize replaceAll refuses 0 tree staged = moved at hlines
    obtain ⟨after, count, stopped, lines⟩ := moved
    cases stopped with
    | none => exact hlines
    | some fault =>
      simp only at hlines ⊢
      rw [stagesEntered_append, hlines, stagesEntered_restore]
      rfl

theorem stagesEntered_log_writeUnder (refuses : Refusals) (tree : FileTree) (directory : Path)
    (files : List OutputFile) :
    stagesEntered (writeUnder refuses tree directory files).log = [] := by
  unfold writeUnder
  split
  · rfl
  · exact stagesEntered_info (by decide)
  · simp only
    split
    · rfl
    · exact stagesEntered_log_commit ..

end Output

/-! ## Stages of a step -/

namespace Build

variable {task : Task} {progress : Progress} {entered : List Stage}

/-- A run has entered some stages, is in the last of them, and has no error to report. -/
structure Traced (progress : Progress) (entered : List Stage) : Prop where
  log : stagesEntered progress.log = entered
  errors : progress.report.errors = []
  stage : ∀ stage, entered.getLast? = some stage →
    progress.stage = stage ∧ progress.report.stage = stage

theorem Traced.enter (h : Traced progress entered) (stage : Stage) :
    Traced (progress.enter stage) (entered ++ [stage]) := by
  refine ⟨?_, h.errors, ?_⟩
  · unfold Progress.enter Progress.say
    simp only
    rw [stagesEntered_append, h.log]
    exact congrArg (entered ++ ·) (stagesEntered_line stage)
  · intro last hlast
    rw [List.getLast?_concat, Option.some.injEq] at hlast
    exact hlast ▸ ⟨rfl, rfl⟩

theorem Traced.say (h : Traced progress entered) {lines : List LogLine}
    (hlines : stagesEntered lines = []) : Traced (progress.say lines) entered := by
  refine ⟨?_, h.errors, h.stage⟩
  unfold Progress.say
  simp only
  rw [stagesEntered_append, h.log, hlines, List.append_nil]

/-- Nothing but the log, the stages and the errors matters. -/
theorem Traced.congr {changed : Progress} (h : Traced progress entered)
    (hlog : changed.log = progress.log) (hstage : changed.stage = progress.stage)
    (hreport : changed.report.stage = progress.report.stage)
    (herrors : changed.report.errors = progress.report.errors) : Traced changed entered := by
  refine ⟨?_, ?_, ?_⟩
  · rw [hlog, h.log]
  · rw [herrors, h.errors]
  · intro last hlast
    rw [hstage, hreport]
    exact h.stage last hlast

theorem traced_start (pipeline : Pipeline) (options : BuildOptions) :
    Traced (pipeline.start options) [] :=
  ⟨rfl, rfl, nofun⟩

/-- After some stages, a step goes through the stages of its course, or ends with a failure on the
way; it breaks down in a stage only. -/
structure Step.Traces {α : Type} (step : Step α) (entered course : List Stage) : Prop where
  ok : ∀ value, step.outcome = .ok value → Traced step.progress (entered ++ course)
  error : ∀ failure, step.outcome = .error failure → failure ≠ .collected [] ∧
    ∃ reached, reached <+: course ∧ Traced step.progress (entered ++ reached) ∧
      ∀ cause, failure = .breakdown cause → entered ++ reached ≠ []

theorem Step.andThen_of_error {α β : Type} {step : Step α} {next : Progress → α → Step β}
    {failure : Failure} (h : step.outcome = .error failure) :
    step.andThen next = ⟨.error failure, step.progress⟩ := by
  unfold Step.andThen
  rw [h]

/-- A step that goes on from another one goes through both courses. -/
theorem Step.Traces.andThen {α β : Type} {step : Step α} {next : Progress → α → Step β}
    {first second : List Stage} (h : step.Traces entered first)
    (hnext : ∀ value, step.outcome = .ok value →
      (next step.progress value).Traces (entered ++ first) second) :
    (step.andThen next).Traces entered (first ++ second) := by
  cases houtcome : step.outcome with
  | ok value =>
    rw [Step.andThen_of_ok houtcome]
    have hrest := hnext value houtcome
    refine ⟨?_, ?_⟩
    · intro planned hplanned
      rw [← List.append_assoc]
      exact hrest.ok planned hplanned
    · intro failure hfailure
      obtain ⟨htells, reached, hreached, htraced, hcause⟩ := hrest.error failure hfailure
      rw [List.append_assoc] at htraced hcause
      exact ⟨htells, first ++ reached, (List.prefix_append_right_inj first).mpr hreached, htraced,
        hcause⟩
  | error failure =>
    rw [Step.andThen_of_error houtcome]
    refine ⟨nofun, ?_⟩
    intro failure' hfailure
    cases hfailure
    obtain ⟨htells, reached, hreached, htraced, hcause⟩ := h.error failure houtcome
    exact ⟨htells, reached, hreached.trans (List.prefix_append first second), htraced, hcause⟩

/-- A step that has entered all the stages of its course, whatever it comes to. -/
theorem Step.traces_of_traced {α : Type} {step : Step α} {course : List Stage}
    (h : Traced step.progress (entered ++ course))
    (htells : ∀ failure, step.outcome = .error failure → failure ≠ .collected [])
    (hstage : entered ++ course ≠ []) : step.Traces entered course := by
  refine ⟨fun _ _ => h, ?_⟩
  intro failure hfailure
  exact ⟨htells failure hfailure, course, List.prefix_rfl, h, fun _ _ => hstage⟩

/-! ## The stages one by one -/

theorem traces_selecting (h : Traced progress []) : (selecting task progress).Traces [] [] := by
  refine ⟨fun _ _ => h, ?_⟩
  intro failure hfailure
  have hnamed : ∃ e, failure = .error e := by
    unfold selecting at hfailure
    cases hmodes : selectModes task.config task.options.modes with
    | error e =>
      rw [hmodes] at hfailure
      exact ⟨e, (Except.error.inj hfailure).symm⟩
    | ok modes =>
      rw [hmodes] at hfailure
      cases hfailure
  obtain ⟨e, rfl⟩ := hnamed
  exact ⟨nofun, [], List.prefix_rfl, h, nofun⟩

/-- Loading is entered, whatever it comes to. -/
theorem traced_loading (h : Traced progress entered) :
    Traced (loading task progress).progress (entered ++ [.loading]) := by
  let loaded := Store.load task.options.dryRun task.tree progress.store task.config.layers
  have hread : Traced { progress.enter .loading with store := loaded.store }
      (entered ++ [.loading]) :=
    (h.enter .loading).congr rfl rfl rfl rfl
  have htold := hread.say
    (Store.stagesEntered_log_load task.options.dryRun task.tree progress.store task.config.layers)
  unfold loading
  simp only
  split
  · exact htold
  · exact htold
  · refine htold.say ?_
    unfold layerLines
    exact stagesEntered_map_detail _ _

theorem traces_loading (h : Traced progress entered) :
    (loading task progress).Traces entered [.loading] := by
  refine Step.traces_of_traced (traced_loading h) ?_
    (List.append_ne_nil_of_right_ne_nil _ (List.cons_ne_nil _ _))
  intro failure hfailure
  rw [outcome_loading rfl] at hfailure
  split at hfailure
  · rename_i hstopped
    cases hfailure
    exact (Store.load_stopped_ofLayer hstopped).ne_collected _
  · cases hfailure
    exact nofun
  · cases hfailure

theorem traces_composing {layers : List Layer} {composed : ByMode TokenTree}
    (h : Traced progress entered) :
    (composing task progress layers composed).Traces entered [.composing] := by
  have hnoted : Traced (composing task progress layers composed).progress
      (entered ++ [.composing]) := by
    have htold : Traced ((progress.enter .composing).say (composed.map (composedLine layers)))
        (entered ++ [.composing]) :=
      (h.enter .composing).say (stagesEntered_map_detail _ composed)
    unfold composing
    simp only
    split
    · exact htold.congr rfl rfl rfl rfl
    · exact htold.congr rfl rfl rfl rfl
  refine Step.traces_of_traced hnoted ?_
    (List.append_ne_nil_of_right_ne_nil _ (List.cons_ne_nil _ _))
  intro failure hfailure
  unfold composing at hfailure
  simp only at hfailure
  split at hfailure
  · cases hfailure
    exact nofun
  · cases hfailure

/-- Resolving is stopped by the error of a token, or breaks down. -/
theorem stopped_resolveAll_ne_collected {collect detailed : Bool} {cache : ResolutionCache}
    {composed : List (String × TokenTree)} {failure : Failure}
    (h : (resolveAll collect detailed cache composed).stopped = some failure)
    (errors : List BuildError) : failure ≠ .collected errors := by
  induction composed generalizing cache with
  | nil => cases h
  | cons entry rest ih =>
    obtain ⟨mode, tree⟩ := entry
    rw [resolveAll] at h
    simp only at h
    split at h
    · rename_i stopped hstopped
      cases h
      exact ResolutionCache.stopped_resolve_ne_collected hstopped errors
    · exact ih h

/-- However resolving ends, it has entered its stage. -/
theorem traced_resolving {composed : ByMode TokenTree} (h : Traced progress entered) :
    Traced (resolving task progress composed).progress (entered ++ [.resolving]) := by
  let all := resolveAll task.options.dryRun task.detailed progress.cache composed
  have hcached : Traced { progress.enter .resolving with cache := all.cache }
      (entered ++ [.resolving]) :=
    (h.enter .resolving).congr rfl rfl rfl rfl
  have htold := hcached.say
    (stagesEntered_log_resolveAll task.options.dryRun task.detailed progress.cache composed)
  unfold resolving
  simp only
  split
  · exact htold.congr rfl rfl rfl rfl
  · exact htold.congr rfl rfl rfl rfl

theorem traces_resolving {composed : ByMode TokenTree} (h : Traced progress entered) :
    (resolving task progress composed).Traces entered [.resolving] := by
  refine Step.traces_of_traced (traced_resolving h) ?_
    (List.append_ne_nil_of_right_ne_nil _ (List.cons_ne_nil _ _))
  intro failure hfailure
  unfold resolving at hfailure
  simp only at hfailure
  split at hfailure
  · rename_i stopped hstopped
    cases hfailure
    exact stopped_resolveAll_ne_collected hstopped []
  · cases hfailure

theorem traces_naming {gathered : List BuildError} {resolved : ByMode ResolvedTree}
    (h : Traced progress entered) (hentered : entered ≠ []) :
    (naming task progress gathered resolved).Traces entered [] := by
  have hnoted : Traced (naming task progress gathered resolved).progress entered := by
    unfold naming
    simp only
    split
    · split
      · exact h.congr rfl rfl rfl rfl
      · exact h.congr rfl rfl rfl rfl
    · split
      · exact h.congr rfl rfl rfl rfl
      · exact h.congr rfl rfl rfl rfl
  rw [← List.append_nil entered] at hnoted hentered
  refine Step.traces_of_traced hnoted ?_ hentered
  intro failure hfailure
  unfold naming at hfailure
  simp only at hfailure
  split at hfailure
  · split at hfailure
    · cases hfailure
    · rename_i hfound
      cases hfailure
      intro hnone
      exact hfound (Failure.collected.inj hnone)
  · split at hfailure
    · cases hfailure
    · cases hfailure
      exact nofun

theorem traces_formatting {resolved : ByMode ResolvedTree}
    {identifiers : OrderedMap TokenPath String} (h : Traced progress entered) :
    (formatting task progress resolved identifiers).Traces entered [.formatting] := by
  have hnoted : Traced (formatting task progress resolved identifiers).progress
      (entered ++ [.formatting]) := by
    unfold formatting
    simp only
    split
    · exact h.enter .formatting
    · exact (h.enter .formatting).congr rfl rfl rfl rfl
  refine Step.traces_of_traced hnoted ?_
    (List.append_ne_nil_of_right_ne_nil _ (List.cons_ne_nil _ _))
  intro failure hfailure
  rw [outcome_formatting] at hfailure
  unfold Css.files at hfailure
  simp only at hfailure
  split at hfailure
  · cases hfailure
    exact nofun
  · cases hfailure

/-- Planning goes through the stages up to formatting. -/
theorem traces_planning (h : Traced progress []) :
    (planning task progress).Traces [] [.loading, .composing, .resolving, .formatting] := by
  refine (traces_selecting h).andThen
    fun modes hmodes => ?_
  refine (traces_loading h).andThen
    fun layers hlayers => ?_
  have hloaded := (traces_loading h).ok layers hlayers
  refine (traces_composing hloaded).andThen
    fun gathered hgathered => ?_
  have hcomposed := (traces_composing hloaded).ok gathered hgathered
  refine (traces_resolving hcomposed).andThen fun all hall => ?_
  have hresolved := (traces_resolving hcomposed).ok all hall
  refine (traces_naming hresolved (List.cons_ne_nil _ _)).andThen
    fun identifiers hnames => ?_
  exact traces_formatting ((traces_naming hresolved (List.cons_ne_nil _ _)).ok identifiers hnames)

/-! ## The end of a run -/

theorem traces_writing {planned : Planned} (h : Traced progress entered) :
    (∀ written, (writing task progress planned).outcome = .ok written →
      Traced (writing task progress planned).progress
        (entered ++ (if task.options.dryRun then [] else [.writing]) ++ [.done])) ∧
      ∀ failure, (writing task progress planned).outcome = .error failure →
        failure ≠ .collected [] ∧ task.options.dryRun = false ∧
          Traced (writing task progress planned).progress (entered ++ [.writing]) := by
  unfold writing
  cases task.options.dryRun with
  | true =>
    rw [if_pos rfl, if_pos rfl, List.append_nil]
    exact ⟨fun _ _ => h.enter .done, nofun⟩
  | false =>
    have htold := (h.enter .writing).say (Output.stagesEntered_log_writeUnder task.refuses task.tree
      task.outputDir planned.files)
    rw [if_neg Bool.false_ne_true, if_neg Bool.false_ne_true]
    simp only
    split
    · refine ⟨nofun, ?_⟩
      rintro failure hfailure
      cases hfailure
      exact ⟨nofun, trivial, htold⟩
    · refine ⟨nofun, ?_⟩
      rintro failure hfailure
      cases hfailure
      exact ⟨nofun, trivial, htold⟩
    · refine ⟨fun _ _ => Traced.enter ?_ .done, nofun⟩
      exact htold.congr rfl rfl rfl rfl

/-- The stages on the way to a successful end: those in memory, and writing unless the run is
dry. -/
def course (dryRun : Bool) : List Stage :=
  [.loading, .composing, .resolving, .formatting] ++ if dryRun then [] else [.writing]

/-- A build goes through its course, or fails on the way; it breaks down in a stage only. -/
theorem traces_stages (h : Traced progress []) :
    (∀ planned, (stages task progress).outcome = .ok planned →
      Traced (stages task progress).progress (course task.options.dryRun ++ [.done])) ∧
      ∀ failure, (stages task progress).outcome = .error failure → failure ≠ .collected [] ∧
        ∃ reached, reached <+: course task.options.dryRun ∧
          Traced (stages task progress).progress reached ∧
          ∀ cause, failure = .breakdown cause → reached ≠ [] := by
  have hplanning : (planning task progress).Traces [] _ := traces_planning h
  cases hplan : (planning task progress).outcome with
  | error failure =>
    obtain ⟨htells, reached, hreached, htraced, hcause⟩ := hplanning.error failure hplan
    unfold stages
    simp only [hplan]
    refine ⟨nofun, ?_⟩
    rintro failure' hfailure
    cases hfailure
    exact ⟨htells, reached, hreached.trans (List.prefix_append _ _), htraced, hcause⟩
  | ok planned =>
    rw [stages_of_planning_ok hplan]
    obtain ⟨hok, herror⟩ := traces_writing (hplanning.ok planned hplan)
    refine ⟨hok, ?_⟩
    intro failure hfailure
    obtain ⟨htells, hdry, htraced⟩ := herror failure hfailure
    refine ⟨htells, _, ?_, htraced, fun _ _ => List.cons_ne_nil _ _⟩
    rw [hdry]
    exact List.prefix_rfl

theorem log_settle (ending : Ending) : (settle ending).log = ending.progress.log := by
  unfold settle
  simp only
  split <;> rfl

/-- A build without errors keeps its stage and its report, but for the use of the cache. -/
theorem Traced.settle {ending : Ending} (h : Traced ending.progress entered)
    (hnone : ∀ failure, ending.outcome = .error failure → ∃ cause, failure = .breakdown cause) :
    Traced (settle ending) entered := by
  unfold Build.settle
  simp only
  split
  · exact h.congr rfl rfl rfl rfl
  · exact h.congr rfl rfl rfl rfl
  · rename_i failure hbroken houtcome
    obtain ⟨cause, rfl⟩ := hnone failure houtcome
    exact absurd rfl (hbroken cause)

/-- A build that succeeds has gone through all its stages. -/
theorem traced_settle_of_ok {planned : Planned} (h : Traced progress [])
    (hplanned : (stages task progress).outcome = .ok planned) :
    Traced (settle (stages task progress)) (course task.options.dryRun ++ [.done]) := by
  refine ((traces_stages h).1 planned hplanned).settle ?_
  rw [hplanned]
  exact nofun

/-- A build that breaks down stays in the stage that it has come to. -/
theorem exists_traced_of_breakdown {cause : Breakdown} (h : Traced progress [])
    (hcause : (stages task progress).outcome = .error (.breakdown cause)) :
    ∃ reached stage, reached <+: course task.options.dryRun ∧ reached.getLast? = some stage ∧
      Traced (stages task progress).progress reached ∧
      Traced (settle (stages task progress)) reached := by
  obtain ⟨_, reached, hreached, htraced, hstage⟩ := (traces_stages h).2 _ hcause
  refine ⟨reached, _, hreached, List.getLast?_eq_some_getLast (hstage cause rfl), htraced,
    htraced.settle ?_⟩
  rw [hcause]
  rintro failure hfailure
  exact ⟨cause, (Except.error.inj hfailure).symm⟩

/-- A build with errors has failed, and reports what they say. -/
theorem settle_of_error {ending : Ending} {failure : Failure}
    (h : ending.outcome = .error failure) (herror : ∀ cause, failure ≠ .breakdown cause) :
    (settle ending).stage = .failed ∧ (settle ending).report.stage = .failed ∧
      (settle ending).report.errors = failure.errors.map BuildError.message := by
  unfold settle
  rw [h]
  cases failure with
  | error e => exact ⟨rfl, rfl, rfl⟩
  | collected errors => exact ⟨rfl, rfl, rfl⟩
  | breakdown cause => exact absurd rfl (herror cause)

/-- A failure that is no breakdown stands for some error. -/
theorem errors_ne_nil {failure : Failure} (htells : failure ≠ .collected [])
    (herror : ∀ cause, failure ≠ .breakdown cause) : failure.errors ≠ [] := by
  cases failure with
  | error e => exact List.cons_ne_nil _ _
  | collected errors =>
    rintro rfl
    exact htells rfl
  | breakdown cause => exact absurd rfl (herror cause)

end Build

namespace Pipeline

variable {refuses : Output.Refusals} {pipeline : Pipeline} {tree : FileTree}
  {options : BuildOptions}

/-- How a run ends: what it yields, the pipeline with its last report, and the stages that the log
tells of say the same. -/
structure Ends (dryRun : Bool) (answer : Answer Report) (report : Report) : Prop where
  lastReport : answer.pipeline.lastReport = some report
  stage : answer.pipeline.stage = report.stage
  /-- A run that succeeds has gone through all its stages, and returns its report. -/
  succeeded : ∀ returned, answer.result = .ok returned →
    returned = report ∧ report.stage = .done ∧ report.errors = [] ∧
      stagesEntered answer.log = Build.course dryRun ++ [.done]
  /-- A run that fails with errors reports just these, and enters no further stage. -/
  failed : ∀ failure, answer.result = .error failure → (∀ cause, failure ≠ .breakdown cause) →
    report.stage = .failed ∧ report.errors = failure.errors.map BuildError.message ∧
      report.errors ≠ [] ∧ stagesEntered answer.log <+: Build.course dryRun
  /-- A run that breaks down stays in the stage that it has come to, and reports no error. -/
  brokeDown : ∀ cause, answer.result = .error (.breakdown cause) →
    report.stage ∈ Build.course dryRun ∧ report.errors = [] ∧
      stagesEntered answer.log <+: Build.course dryRun ∧
      (stagesEntered answer.log).getLast? = some report.stage

theorem stagesEntered_log_runUnder (refuses : Output.Refusals) (pipeline : Pipeline)
    (tree : FileTree) (options : BuildOptions) :
    stagesEntered (pipeline.runUnder refuses tree options).log = stagesEntered
      (Build.stages (pipeline.task refuses tree options) (pipeline.start options)).progress.log := by
  unfold runUnder buildUnder
  simp only
  rw [stagesEntered_shownLines, stagesEntered_append, Build.log_settle]
  split
  · rw [Build.stagesEntered_closingLines, List.append_nil]
  · exact List.append_nil _

theorem result_runUnder_eq_error_iff {failure : Failure} :
    (pipeline.runUnder refuses tree options).result = .error failure ↔
      (Build.stages (pipeline.task refuses tree options) (pipeline.start options)).outcome =
        .error failure := by
  rw [← result_buildUnder_eq_error_iff]
  unfold runUnder
  simp only
  cases (pipeline.buildUnder refuses tree options).result with
  | ok result => exact iff_of_false nofun nofun
  | error failure => simp [Except.map]

theorem result_runUnder_eq_breakdown_iff {cause : Breakdown} :
    (pipeline.runUnder refuses tree options).result = .error (.breakdown cause) ↔
      BreaksDown refuses pipeline tree options cause := by
  rw [result_runUnder_eq_error_iff, ← result_buildUnder_eq_error_iff]
  exact result_eq_breakdown_iff

theorem fileAt?_runUnder_of_error {failure : Failure}
    (h : (pipeline.runUnder refuses tree options).result = .error failure) (location : Location) :
    (pipeline.runUnder refuses tree options).tree.fileAt? location = tree.fileAt? location :=
  Build.fileAt?_stages_of_error (result_runUnder_eq_error_iff.mp h) location

theorem exists_of_result_runUnder_eq_ok {returned : Report}
    (h : (pipeline.runUnder refuses tree options).result = .ok returned) :
    let ending := Build.stages (pipeline.task refuses tree options) (pipeline.start options)
    (∃ planned, ending.outcome = .ok planned) ∧ returned = (Build.settle ending).report := by
  unfold runUnder buildUnder at h
  simp only at h ⊢
  cases houtcome : (Build.stages (pipeline.task refuses tree options)
      (pipeline.start options)).outcome with
  | ok planned =>
    rw [houtcome] at h
    exact ⟨⟨planned, rfl⟩, (Except.ok.inj h).symm⟩
  | error failure =>
    rw [houtcome] at h
    cases h

theorem ends_runUnder (refuses : Output.Refusals) (pipeline : Pipeline) (tree : FileTree)
    (options : BuildOptions) :
    Ends options.dryRun (pipeline.runUnder refuses tree options)
      (Build.settle (Build.stages (pipeline.task refuses tree options)
        (pipeline.start options))).report := by
  let ending := Build.stages (pipeline.task refuses tree options) (pipeline.start options)
  have hstart : Build.Traced (pipeline.start options) [] := Build.traced_start pipeline options
  obtain ⟨hok, herror⟩ := @Build.traces_stages (pipeline.task refuses tree options) _ hstart
  constructor
  case lastReport => rfl
  case stage =>
    change (Build.settle ending).stage = (Build.settle ending).report.stage
    cases houtcome : ending.outcome with
    | ok planned =>
      have hdone := Build.traced_settle_of_ok hstart houtcome
      obtain ⟨hstage, hreport⟩ := hdone.stage .done List.getLast?_concat
      rw [hstage, hreport]
    | error failure =>
      by_cases hcause : ∃ cause, failure = .breakdown cause
      · obtain ⟨cause, rfl⟩ := hcause
        obtain ⟨reached, stage, _, hlast, _, hsettled⟩ :=
          Build.exists_traced_of_breakdown hstart houtcome
        obtain ⟨hstage, hreport⟩ := hsettled.stage stage hlast
        rw [hstage, hreport]
      · obtain ⟨hstage, hreport, _⟩ := Build.settle_of_error houtcome (not_exists.mp hcause)
        rw [hstage, hreport]
  case succeeded =>
    intro returned hreturned
    obtain ⟨⟨planned, hplanned⟩, rfl⟩ := exists_of_result_runUnder_eq_ok hreturned
    have hdone := Build.traced_settle_of_ok hstart hplanned
    obtain ⟨_, hstage⟩ := hdone.stage .done List.getLast?_concat
    rw [stagesEntered_log_runUnder]
    exact ⟨rfl, hstage, hdone.errors, (hok planned hplanned).log⟩
  case failed =>
    intro failure hfailure hcause
    rw [result_runUnder_eq_error_iff] at hfailure
    obtain ⟨htells, reached, hreached, htraced, _⟩ := herror failure hfailure
    obtain ⟨_, hstage, herrors⟩ := Build.settle_of_error hfailure hcause
    rw [stagesEntered_log_runUnder, htraced.log]
    refine ⟨hstage, herrors, ?_, hreached⟩
    rw [herrors, ne_eq, List.map_eq_nil_iff]
    exact Build.errors_ne_nil htells hcause
  case brokeDown =>
    intro cause hcause
    rw [result_runUnder_eq_error_iff] at hcause
    obtain ⟨reached, stage, hreached, hlast, htraced, hsettled⟩ :=
      Build.exists_traced_of_breakdown hstart hcause
    obtain ⟨_, hstage⟩ := hsettled.stage stage hlast
    have hlog : stagesEntered (pipeline.runUnder refuses tree options).log = reached :=
      (stagesEntered_log_runUnder refuses pipeline tree options).trans htraced.log
    rw [hlog, hstage]
    exact ⟨hreached.subset (List.mem_of_getLast? hlast), hsettled.errors, hreached, hlast⟩

/-- No document of the layers spells a surrogate that stands alone. -/
def SpellsCharacters (pipeline : Pipeline) (tree : FileTree) : Prop :=
  ∀ source ∈ pipeline.config.layers, ∀ path ∈ source.documentPath? pipeline.store.dataDir,
    ∀ text, tree.readText path = .ok text → Json.SpellsCharacters text

/-- The strings of the documents of the layers are read as they are spelled. -/
def ReadsAsSpelled (pipeline : Pipeline) (tree : FileTree) : Prop :=
  ∀ source ∈ pipeline.config.layers, ∀ path ∈ source.documentPath? pipeline.store.dataDir,
    ∀ text, tree.readText path = .ok text → Json.ReadsAsSpelled text

end Pipeline

end DesignTokens
