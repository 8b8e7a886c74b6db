import DesignTokens.Proofs.Build.ByMode
/-!
# What calls leave behind

A pipeline keeps the documents that it has read and the terminals that it has found.  Whatever is
asked of it, and however a call ends, the documents are those of a load, and the terminals come from
resolving trees that were composed from the loaded layers.
-/

set_option autoImplicit false

namespace DesignTokens

/-- A call on a pipeline. -/
inductive Pipeline.Call where
  | build (refuses : Output.Refusals) (options : BuildOptions)
  | resolveToken (dotted mode : String)
  | forgetDocuments
  | forgetTerminals

namespace Pipeline

/-- The pipeline that a call leaves. -/
def afterCall (pipeline : Pipeline) (tree : FileTree) : Call → Pipeline
  | .build refuses options => (pipeline.buildUnder refuses tree options).pipeline
  | .resolveToken dotted mode => (pipeline.resolveToken tree dotted mode).pipeline
  | .forgetDocuments => { pipeline with store := pipeline.store.clear }
  | .forgetTerminals => { pipeline with cache := pipeline.cache.clear }

/-- The pipeline that a history of calls leaves.  Every call has its own tree, so that anything may
happen to the files between two calls. -/
def after (pipeline : Pipeline) (history : List (FileTree × Call)) : Pipeline :=
  history.foldl (fun pipeline made => pipeline.afterCall made.1 made.2) pipeline

end Pipeline

/-! ## The cache -/

namespace ResolutionCache

/-- The second cache is what some calls make of the first, and the trees that they resolve are
allowed. -/
def ResolvesOnly (allowed : TokenTree → Prop) (before after : ResolutionCache) : Prop :=
  ∃ calls, after = before.after calls ∧ ∀ tree ∈ ResolutionCall.trees calls, allowed tree

variable {allowed : TokenTree → Prop} {before between cache : ResolutionCache}

theorem ResolvesOnly.refl (allowed : TokenTree → Prop) (cache : ResolutionCache) :
    ResolvesOnly allowed cache cache :=
  ⟨[], rfl, by simp [ResolutionCall.trees]⟩

theorem ResolvesOnly.trans (h : ResolvesOnly allowed before between)
    (hafter : ResolvesOnly allowed between cache) : ResolvesOnly allowed before cache := by
  obtain ⟨calls, rfl, htrees⟩ := h
  obtain ⟨calls', rfl, htrees'⟩ := hafter
  refine ⟨calls ++ calls', (List.foldl_append ..).symm, fun tree htree => ?_⟩
  unfold ResolutionCall.trees at htree
  rw [List.filterMap_append, List.mem_append] at htree
  cases htree with
  | inl hfirst => exact htrees tree hfirst
  | inr hlater => exact htrees' tree hlater

theorem ResolvesOnly.mono {allowed' : TokenTree → Prop} (h : ResolvesOnly allowed before cache)
    (hmore : ∀ tree, allowed tree → allowed' tree) : ResolvesOnly allowed' before cache := by
  obtain ⟨calls, hcalls, htrees⟩ := h
  exact ⟨calls, hcalls, fun tree htree => hmore tree (htrees tree htree)⟩

/-- Forgetting the terminals resolves nothing. -/
theorem resolvesOnly_clear (allowed : TokenTree → Prop) (cache : ResolutionCache) :
    ResolvesOnly allowed cache cache.clear :=
  ⟨[.clear], rfl, by simp [ResolutionCall.trees, ResolutionCall.tree?]⟩

theorem resolvesOnly_resolve {tree : TokenTree} (htree : allowed tree) (cache : ResolutionCache)
    (collect : Bool) (mode : String) :
    ResolvesOnly allowed cache (cache.resolve collect tree mode).2 := by
  refine ⟨[.resolve collect tree mode], ?_, ?_⟩
  · unfold after ResolutionCache.answer
    simp only [List.foldl_cons, List.foldl_nil]
    split <;> rfl
  · intro tree' htree'
    rwa [List.mem_singleton.mp htree']

theorem resolvesOnly_resolvePath {tree : TokenTree} (htree : allowed tree)
    (cache : ResolutionCache) (mode : String) (path : TokenPath) :
    ResolvesOnly allowed cache (cache.resolvePath tree mode path).2 := by
  refine ⟨[.resolvePath tree mode path], ?_, ?_⟩
  · unfold after ResolutionCache.answer
    simp only [List.foldl_cons, List.foldl_nil]
    split <;> rfl
  · intro tree' htree'
    rwa [List.mem_singleton.mp htree']

/-- What is remembered stays true if the trees that are resolved are among those it is true of. -/
theorem Sound.resolvesOnly {trees : List TokenTree} (h : Sound trees before)
    (hdistinguished : Distinguished trees) (hallowed : ∀ tree, allowed tree → tree ∈ trees)
    (hcalls : ResolvesOnly allowed before cache) : Sound trees cache := by
  obtain ⟨calls, rfl, htrees⟩ := hcalls
  refine h.after hdistinguished fun call hcall tree htree => ?_
  exact hallowed tree (htrees tree (List.mem_filterMap.mpr ⟨call, hcall, htree⟩))

end ResolutionCache

namespace Pipeline

/-- The trees that a load of the documents is composed to. -/
def Composes (config : Config) (store : Store) (tree : FileTree) (composed : TokenTree) : Prop :=
  ∃ mode ∈ config.modes,
    composed = Cascade.compose (Store.load true tree store config.layers).layers mode

/-- What one call may leave of a pipeline. -/
structure Leaves (tree : FileTree) (before after : Pipeline) : Prop where
  config : after.config = before.config
  detailed : after.detailed = before.detailed
  /-- The documents stay, or are forgotten, or are those of a load. -/
  store : after.store = before.store ∨ after.store = before.store.clear ∨
    ∃ collect, after.store = (Store.load collect tree before.store before.config.layers).store
  /-- The terminals come from resolving trees of the loaded layers. -/
  cache : ResolutionCache.ResolvesOnly (Composes before.config before.store tree)
    before.cache after.cache

end Pipeline

namespace Build

variable {task : Task} {progress : Progress} {layers : List Layer} {modes : List String}

/-- Resolving several trees resolves none but these. -/
theorem resolvesOnly_resolveAll (collect detailed : Bool) (cache : ResolutionCache)
    (composed : List (String × TokenTree)) :
    ResolutionCache.ResolvesOnly (fun tree => ∃ entry ∈ composed, tree = entry.2) cache
      (resolveAll collect detailed cache composed).cache := by
  induction composed generalizing cache with
  | nil => exact .refl _ _
  | cons entry rest ih =>
    obtain ⟨mode, tree⟩ := entry
    have hfirst : ResolutionCache.ResolvesOnly
        (fun tree' => ∃ entry ∈ (mode, tree) :: rest, tree' = entry.2) cache
        (cache.resolve collect tree mode).2 :=
      ResolutionCache.resolvesOnly_resolve ⟨_, List.mem_cons_self, rfl⟩ cache collect mode
    rw [resolveAll]
    simp only
    split
    · exact hfirst
    · refine hfirst.trans ((ih _).mono ?_)
      rintro tree' ⟨entry, hentry, hsame⟩
      exact ⟨entry, List.mem_cons_of_mem _ hentry, hsame⟩

/-! ## The stages -/

/-- What holds after a stage, and after the one that goes on with what it yields, holds after both
together. -/
theorem Step.progress_andThen {α β : Type} (holds : Progress → Prop) {step : Step α}
    {next : Progress → α → Step β} (hstep : holds step.progress)
    (hnext : ∀ value, step.outcome = .ok value → holds (next step.progress value).progress) :
    holds (step.andThen next).progress := by
  unfold Step.andThen
  split
  · exact hnext _ ‹_›
  · exact hstep

/-- A stage that has no use for what is kept leaves it as it is. -/
structure Progress.Keeps (before after : Progress) : Prop where
  store : after.store = before.store
  cache : after.cache = before.cache

theorem keeps_composing {composed : ByMode TokenTree} :
    progress.Keeps (composing task progress layers composed).progress := by
  unfold composing
  simp only
  split <;> exact ⟨rfl, rfl⟩

theorem keeps_naming {gathered : List BuildError} {resolved : ByMode ResolvedTree} :
    progress.Keeps (naming task progress gathered resolved).progress := by
  unfold naming
  simp only
  split
  · split <;> exact ⟨rfl, rfl⟩
  · split <;> exact ⟨rfl, rfl⟩

theorem keeps_formatting {resolved : ByMode ResolvedTree}
    {identifiers : OrderedMap TokenPath String} :
    progress.Keeps (formatting task progress resolved identifiers).progress := by
  unfold formatting
  simp only
  split <;> exact ⟨rfl, rfl⟩

/-- A stage that leaves the documents as they are, and resolves the composed trees if it does
anything to the terminals. -/
structure Progress.Resolves (task : Task) (composed : ByMode TokenTree) (before after : Progress) :
    Prop where
  store : after.store = before.store
  cache : after.cache = before.cache ∨ after.cache =
    (resolveAll task.options.dryRun task.detailed before.cache composed).cache

theorem Progress.Keeps.resolves {before after : Progress} (h : before.Keeps after)
    (composed : ByMode TokenTree) : Progress.Resolves task composed before after :=
  ⟨h.store, .inl h.cache⟩

theorem Progress.Resolves.keeps {composed : ByMode TokenTree} {before between after : Progress}
    (h : Progress.Resolves task composed before between) (hafter : between.Keeps after) :
    Progress.Resolves task composed before after := by
  refine ⟨hafter.store.trans h.store, ?_⟩
  rw [hafter.cache]
  exact h.cache

theorem resolves_resolving {composed : ByMode TokenTree} {before : Progress}
    (h : before.Keeps progress) :
    Progress.Resolves task composed before (resolving task progress composed).progress := by
  refine ⟨?_, .inr ?_⟩
  · rw [← h.store]
    unfold resolving
    simp only
    split <;> rfl
  · rw [← h.cache]
    unfold resolving
    simp only
    split <;> rfl

/-- All that the checks do to what is kept is to resolve the composed trees. -/
theorem resolves_checking (task : Task) (progress : Progress) (layers : List Layer)
    (modes : List String) :
    Progress.Resolves task (Cascade.composeAll layers modes) progress
      (checking task progress layers modes).progress := by
  unfold checking
  refine Step.progress_andThen _ (keeps_composing.resolves _) fun gathered _ => ?_
  refine Step.progress_andThen _ (resolves_resolving keeps_composing) fun all _ => ?_
  refine Step.progress_andThen _ ((resolves_resolving keeps_composing).keeps keeps_naming) ?_
  intro identifiers _
  exact ((resolves_resolving keeps_composing).keeps keeps_naming).keeps keeps_formatting

/-- Modes that are asked for are built only if they are known. -/
theorem mem_modes_of_selectModes {config : Config} {asked : List String}
    (h : selectModes config (some asked) = .ok modes) {mode : String} (hmode : mode ∈ asked) :
    mode ∈ config.modes := by
  unfold selectModes at h
  split at h
  · rename_i hasked
    cases hasked
  · rename_i hasked
    cases hasked
    cases hmode
  · rename_i asked' _ hasked
    cases hasked
    split at h
    · cases h
    · rename_i hknown
      simpa using List.find?_eq_none.mp hknown mode hmode

/-- Loading that goes through yields the layers that a gathering load yields. -/
theorem layers_of_loading_eq_ok (h : (loading task progress).outcome = .ok layers) :
    layers = (Store.load true task.tree progress.store task.config.layers).layers := by
  obtain ⟨_, herrors⟩ := clean_of_loading_eq_ok h
  have hsame : Store.load task.options.dryRun task.tree progress.store task.config.layers =
      Store.load true task.tree progress.store task.config.layers := by
    cases task.options.dryRun with
    | true => rfl
    | false => exact Store.load_strict_of_errors_eq_nil herrors
  rw [outcome_loading hsame] at h
  split at h
  · cases h
  · cases h
  · exact (Except.ok.inj h).symm

theorem store_loading : (loading task progress).progress.store =
    (Store.load task.options.dryRun task.tree progress.store task.config.layers).store := by
  unfold loading
  simp only
  split <;> rfl

/-- Planning leaves the documents as they are, or those of its load. -/
theorem store_planning (task : Task) (progress : Progress) :
    (planning task progress).progress.store = progress.store ∨
    (planning task progress).progress.store =
      (Store.load task.options.dryRun task.tree progress.store task.config.layers).store := by
  cases hmodes : selectModes task.config task.options.modes with
  | error e =>
    left
    rw [planning_eq]
    unfold selecting Step.andThen
    rw [hmodes]
    rfl
  | ok modes =>
    right
    rw [planning_of_modes hmodes, ← store_loading]
    refine Step.progress_andThen (fun after => after.store = _) rfl fun layers _ => ?_
    exact (resolves_checking ..).store

/-- Planning resolves only trees that are composed from the loaded layers. -/
theorem resolvesOnly_planning (task : Task) (progress : Progress) (hvalid : task.config.Valid) :
    ResolutionCache.ResolvesOnly (Pipeline.Composes task.config progress.store task.tree)
      progress.cache (planning task progress).progress.cache := by
  cases hmodes : selectModes task.config task.options.modes with
  | error e =>
    rw [planning_eq]
    unfold selecting Step.andThen
    rw [hmodes]
    exact .refl _ _
  | ok modes =>
    rw [planning_of_modes hmodes]
    refine Step.progress_andThen (fun after => ResolutionCache.ResolvesOnly _ _ after.cache)
      (by rw [cache_loading]; exact .refl _ _) fun layers hlayers => ?_
    -- Whether the checks come to resolving or end before it, nothing else touches the terminals.
    cases (resolves_checking task (loading task progress).progress layers modes).cache with
    | inl hsame =>
      rw [hsame, cache_loading]
      exact .refl _ _
    | inr hresolved =>
      rw [hresolved, cache_loading]
      refine (resolvesOnly_resolveAll _ _ _ _).mono ?_
      rintro composed ⟨entry, hentry, rfl⟩
      have hsub := sublist_of_selectModes hmodes
      rw [Cascade.composeAll_of_nodup layers (nodup_of_selectModes hvalid hmodes)] at hentry
      obtain ⟨mode, hmode, rfl⟩ := List.mem_map.mp hentry
      refine ⟨mode, hvalid.mem_orderedModes.mp (hsub.subset hmode), ?_⟩
      rw [layers_of_loading_eq_ok hlayers]

/-- Nothing that is kept changes once planning is over. -/
theorem keeps_settle_stages (task : Task) (progress : Progress) :
    (planning task progress).progress.Keeps (settle (stages task progress)) := by
  have hstages : (planning task progress).progress.Keeps (stages task progress).progress := by
    unfold stages
    simp only
    split
    · unfold writing
      split
      · exact ⟨rfl, rfl⟩
      · simp only
        split <;> exact ⟨rfl, rfl⟩
    · exact ⟨rfl, rfl⟩
  refine ⟨Eq.trans ?_ hstages.store, Eq.trans ?_ hstages.cache⟩
  · unfold settle Progress.note
    simp only
    split <;> rfl
  · unfold settle Progress.note
    simp only
    split <;> rfl

end Build

namespace Pipeline

variable {pipeline : Pipeline} {tree : FileTree}

theorem leaves_build (hvalid : pipeline.config.Valid) (refuses : Output.Refusals)
    (options : BuildOptions) :
    Leaves tree pipeline (pipeline.buildUnder refuses tree options).pipeline := by
  have hkeeps := Build.keeps_settle_stages (pipeline.task refuses tree options)
    (pipeline.start options)
  have hcache := Build.resolvesOnly_planning (pipeline.task refuses tree options)
    (pipeline.start options) hvalid
  rw [← hkeeps.cache] at hcache
  refine ⟨rfl, rfl, ?_, hcache⟩
  obtain hsame | hload := Build.store_planning (pipeline.task refuses tree options)
    (pipeline.start options)
  · exact .inl (hkeeps.store.trans hsame)
  · exact .inr (.inr ⟨_, hkeeps.store.trans hload⟩)

/-- What composing the tree of one mode leaves and yields. -/
theorem leaves_composeMode (pipeline : Pipeline) (tree : FileTree) (mode : String) :
    Leaves tree pipeline (pipeline.composeMode tree mode).pipeline ∧
      (pipeline.composeMode tree mode).pipeline.cache = pipeline.cache ∧
      ∀ composed, (pipeline.composeMode tree mode).result = .ok composed →
        Composes pipeline.config pipeline.store tree composed := by
  unfold composeMode
  cases hmodes : Build.selectModes pipeline.config (some [mode]) with
  | error e =>
    refine ⟨⟨rfl, rfl, .inl rfl, .refl _ _⟩, rfl, fun composed hcomposed => ?_⟩
    cases hcomposed
  | ok modes =>
    simp only
    split
    · refine ⟨⟨rfl, rfl, .inr (.inr ⟨_, rfl⟩), .refl _ _⟩, rfl, fun composed hcomposed => ?_⟩
      cases hcomposed
    · rename_i hstopped
      refine ⟨⟨rfl, rfl, .inr (.inr ⟨_, rfl⟩), .refl _ _⟩, rfl, fun composed hcomposed => ?_⟩
      cases hcomposed
      refine ⟨mode, Build.mem_modes_of_selectModes hmodes List.mem_cons_self, ?_⟩
      rw [Store.load_strict_of_stopped_eq_none hstopped]

theorem leaves_resolveToken (pipeline : Pipeline) (tree : FileTree) (dotted mode : String) :
    Leaves tree pipeline (pipeline.resolveToken tree dotted mode).pipeline := by
  obtain ⟨hleaves, hcache, hcomposed⟩ := leaves_composeMode pipeline tree mode
  unfold resolveToken
  simp only
  split
  · exact hleaves
  · rename_i tokens htokens
    refine ⟨hleaves.config, hleaves.detailed, hleaves.store, ?_⟩
    rw [← hcache]
    exact ResolutionCache.resolvesOnly_resolvePath (hcomposed tokens htokens) _ mode _

/-- What any call leaves, however it ends. -/
theorem leaves_afterCall (hvalid : pipeline.config.Valid) (tree : FileTree) (call : Call) :
    Leaves tree pipeline (pipeline.afterCall tree call) := by
  cases call with
  | build refuses options => exact leaves_build hvalid refuses options
  | resolveToken dotted mode => exact leaves_resolveToken pipeline tree dotted mode
  | forgetDocuments => exact ⟨rfl, rfl, .inr (.inl rfl), .refl _ _⟩
  | forgetTerminals => exact ⟨rfl, rfl, .inl rfl, ResolutionCache.resolvesOnly_clear _ _⟩

/-- What holds of a pipeline, and is kept by whatever a call may leave, holds after a history of
calls. -/
theorem after_induction (holds : Pipeline → Prop) {history : List (FileTree × Call)}
    (hvalid : ∀ pipeline, holds pipeline → pipeline.config.Valid)
    (hstep : ∀ made ∈ history, ∀ before after, holds before → Leaves made.1 before after →
      holds after) (h : holds pipeline) : holds (pipeline.after history) := by
  induction history generalizing pipeline with
  | nil => exact h
  | cons made later ih =>
    have hleaves := leaves_afterCall (hvalid pipeline h) made.1 made.2
    refine ih (fun made' hmade' => hstep made' (List.mem_cons_of_mem _ hmade')) ?_
    exact hstep made List.mem_cons_self pipeline _ h hleaves

end Pipeline

end DesignTokens
