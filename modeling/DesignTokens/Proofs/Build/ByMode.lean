import DesignTokens.Proofs.Build.Trees
import DesignTokens.Proofs.Resolution.Cache
import DesignTokens.Proofs.Store.Reuse
/-!
# Modes are resolved each by itself

What resolving the trees of several modes yields is, mode by mode, what resolving the mode's own
cascade yields with nothing remembered, if no tree breaks it down.  So neither the other modes nor
what is remembered from before make a difference.
-/

set_option autoImplicit false

namespace DesignTokens

namespace Cascade

/-- What resolving the cascade of a mode yields where nothing is remembered. -/
def resolution (layers : List Layer) (mode : String) : Resolution.Outcome :=
  (ResolutionCache.empty.resolve true (compose layers mode) mode).1

/-- The resolved trees of several modes, each from its own cascade. -/
def resolvedTrees (layers : List Layer) (modes : List String) : Css.ResolvedModes :=
  modes.map fun mode => (mode, (resolution layers mode).resolved)

theorem keys_resolvedTrees (layers : List Layer) (modes : List String) :
    OrderedMap.keys (resolvedTrees layers modes) = modes := by
  simp [OrderedMap.keys, resolvedTrees, Function.comp_def]

/-- A mode has the tree that its own cascade resolves to, if it has one. -/
theorem get?_resolvedTrees (layers : List Layer) {modes : List String} (h : modes.Nodup)
    (mode : String) : OrderedMap.get? (resolvedTrees layers modes) mode =
      if mode ∈ modes then some (resolution layers mode).resolved else none := by
  by_cases hmem : mode ∈ modes
  · rw [if_pos hmem]
    refine OrderedMap.get?_eq_some_of_mem ?_ (List.mem_map_of_mem hmem)
    exact (keys_resolvedTrees layers modes).symm ▸ h
  · rwa [if_neg hmem, OrderedMap.get?_eq_none_iff, keys_resolvedTrees]

/-- The layers that apply to a mode decide what its cascade resolves to. -/
theorem resolution_congr {layers layers' : List Layer} {mode : String}
    (h : layersFor layers mode = layersFor layers' mode) :
    resolution layers mode = resolution layers' mode := by
  unfold resolution compose tokensFor
  rw [h]

end Cascade

/-- Resolving a tree with true memories yields what resolving it with none yields. -/
theorem ResolutionCache.resolve_eq_of_sound {cache : ResolutionCache} {tree : TokenTree}
    {mode : String} (h : Resolution.Memo.Sound tree (cache.memoFor mode tree)) (collect : Bool) :
    (cache.resolve collect tree mode).1.resolved = (empty.resolve collect tree mode).1.resolved ∧
      (cache.resolve collect tree mode).1.errors = (empty.resolve collect tree mode).1.errors := by
  cases hrenderable : tree.isRenderable with
  | false =>
    rw [resolve_of_not_isRenderable hrenderable, resolve_of_not_isRenderable hrenderable]
    exact ⟨rfl, rfl⟩
  | true =>
    have halike : Resolution.Pass.Alike tree (cache.startPass mode tree)
        (empty.startPass mode tree) :=
      ⟨Resolution.Pass.sound_of_memo h 0 0,
        Resolution.Pass.sound_of_memo (Resolution.Memo.sound_nil tree) 0 0, rfl⟩
    obtain ⟨hresolved, herrors, _⟩ := halike.of_resolveEntries collect mode tree
    rw [resolve_of_isRenderable hrenderable, resolve_of_isRenderable hrenderable]
    exact ⟨hresolved, herrors⟩

namespace Build

variable {config : Config} {detailed : Bool} {cache cache' : ResolutionCache}
  {layers : List Layer} {modes : List String}

/-- Resolving several trees, with what is remembered of each being true, is resolving each of them
with nothing remembered, if all of them have fingerprints. -/
theorem resolveAll_eq (detailed : Bool) {composed : List (String × TokenTree)}
    (hmodes : (composed.map (·.1)).Nodup)
    (hmemo : ∀ entry ∈ composed, Resolution.Memo.Sound entry.2 (cache.memoFor entry.1 entry.2))
    (hwithin : Cascade.WithinDigits composed) :
    (resolveAll true detailed cache composed).resolved = composed.map (fun entry =>
        (entry.1, (ResolutionCache.empty.resolve true entry.2 entry.1).1.resolved)) ∧
      (resolveAll true detailed cache composed).errors = composed.flatMap fun entry =>
        (ResolutionCache.empty.resolve true entry.2 entry.1).1.errors := by
  induction composed generalizing cache with
  | nil => exact ⟨rfl, rfl⟩
  | cons entry rest ih =>
    obtain ⟨mode, tree⟩ := entry
    obtain ⟨hresolved, herrors⟩ :=
      ResolutionCache.resolve_eq_of_sound (hmemo _ List.mem_cons_self) true
    -- Memories are kept by mode, so those of the later modes are still what they were.
    obtain ⟨hresolvedRest, herrorsRest⟩ := ih (List.nodup_cons.mp hmodes).2
      (ResolutionCache.sound_memoFor_resolve hmodes hmemo true)
      fun entry hentry => hwithin entry (List.mem_cons_of_mem _ hentry)
    have hrenderable := (Cascade.withinDigits_iff _).mp hwithin _ List.mem_cons_self
    have hstopped : (cache.resolve true tree mode).1.stopped = none :=
      ResolutionCache.stopped_resolve_true hrenderable cache mode
    constructor
    · rw [resolveAll, List.map_cons, ← hresolved, ← hresolvedRest]
      simp only [hstopped]
    · rw [(resolveAll_cons_of_isRenderable hrenderable).1, List.flatMap_cons, herrors, herrorsRest]

/-- What is remembered makes no difference to how far resolving comes, nor to what it yields. -/
theorem resolveAll_congr (detailed : Bool) {composed : List (String × TokenTree)}
    (hmodes : (composed.map (·.1)).Nodup)
    (hmemo : ∀ entry ∈ composed, Resolution.Memo.Sound entry.2 (cache.memoFor entry.1 entry.2))
    (hmemo' : ∀ entry ∈ composed,
      Resolution.Memo.Sound entry.2 (cache'.memoFor entry.1 entry.2)) :
    (resolveAll true detailed cache composed).resolved =
        (resolveAll true detailed cache' composed).resolved ∧
      (resolveAll true detailed cache composed).errors =
        (resolveAll true detailed cache' composed).errors ∧
      (resolveAll true detailed cache composed).stopped =
        (resolveAll true detailed cache' composed).stopped := by
  induction composed generalizing cache cache' with
  | nil => exact ⟨rfl, rfl, rfl⟩
  | cons entry rest ih =>
    obtain ⟨mode, tree⟩ := entry
    cases hrenderable : tree.isRenderable with
    | false =>
      simp only [resolveAll, ResolutionCache.resolve_of_not_isRenderable hrenderable]
      exact ⟨rfl, rfl, rfl⟩
    | true =>
      obtain ⟨hresolved, herrors⟩ :=
        ResolutionCache.resolve_eq_of_sound (hmemo _ List.mem_cons_self) true
      obtain ⟨hresolved', herrors'⟩ :=
        ResolutionCache.resolve_eq_of_sound (hmemo' _ List.mem_cons_self) true
      obtain ⟨hresolvedRest, herrorsRest, hstoppedRest⟩ := ih (List.nodup_cons.mp hmodes).2
        (ResolutionCache.sound_memoFor_resolve hmodes hmemo true)
        (ResolutionCache.sound_memoFor_resolve hmodes hmemo' true)
      simp only [resolveAll, ResolutionCache.stopped_resolve_true hrenderable, hresolvedRest,
        herrorsRest, hstoppedRest, hresolved, hresolved', herrors, herrors', and_self]

/-- What is remembered is true of the trees that are about to be resolved. -/
def Remembers (cache : ResolutionCache) (layers : List Layer) (modes : List String) : Prop :=
  ∀ mode ∈ modes, Resolution.Memo.Sound (Cascade.compose layers mode)
    (cache.memoFor mode (Cascade.compose layers mode))

theorem remembers_empty (layers : List Layer) (modes : List String) :
    Remembers .empty layers modes :=
  fun _ _ => Resolution.Memo.sound_nil _

/-- The cascade of a built mode has a fingerprint if those of all of them do. -/
theorem isRenderable_compose (hmodes : modes.Nodup)
    (hwithin : Cascade.WithinDigits (Cascade.composeAll layers modes)) {mode : String}
    (hmode : mode ∈ modes) : (Cascade.compose layers mode).isRenderable = true := by
  rw [Cascade.withinDigits_iff, Cascade.composeAll_of_nodup layers hmodes] at hwithin
  exact hwithin _ (List.mem_map_of_mem hmode)

/-- The modes of a build are resolved each from its own cascade, if no tree breaks it down. -/
theorem gathering_eq (detailed : Bool) (hmodes : modes.Nodup)
    (hmemo : Remembers cache layers modes)
    (hwithin : Cascade.WithinDigits (Cascade.composeAll layers modes)) :
    (gathering detailed cache layers modes).resolved = Cascade.resolvedTrees layers modes ∧
      (gathering detailed cache layers modes).errors =
        modes.flatMap fun mode => (Cascade.resolution layers mode).errors := by
  unfold gathering
  rw [Cascade.composeAll_of_nodup layers hmodes] at hwithin ⊢
  have hnames : ((modes.map fun mode => (mode, Cascade.compose layers mode)).map (·.1)).Nodup := by
    simpa [Function.comp_def] using hmodes
  obtain ⟨hresolved, herrors⟩ :=
    resolveAll_eq detailed hnames (by simpa [Remembers] using hmemo) hwithin
  refine ⟨hresolved.trans ?_, herrors.trans ?_⟩
  · rw [List.map_map]
    rfl
  · rw [List.flatMap_map]
    rfl

/-! ## What is remembered makes no difference -/

theorem gathering_congr (detailed : Bool) (hmodes : modes.Nodup)
    (hmemo : Remembers cache layers modes) (hmemo' : Remembers cache' layers modes) :
    (gathering detailed cache layers modes).resolved =
        (gathering detailed cache' layers modes).resolved ∧
      (gathering detailed cache layers modes).errors =
        (gathering detailed cache' layers modes).errors ∧
      (gathering detailed cache layers modes).stopped =
        (gathering detailed cache' layers modes).stopped := by
  unfold gathering
  rw [Cascade.composeAll_of_nodup layers hmodes]
  exact resolveAll_congr detailed (by simpa [Function.comp_def] using hmodes)
    (by simpa [Remembers] using hmemo) (by simpa [Remembers] using hmemo')

theorem claiming_congr (config : Config) (detailed : Bool) (hmodes : modes.Nodup)
    (hmemo : Remembers cache layers modes) (hmemo' : Remembers cache' layers modes) :
    claiming config detailed cache layers modes =
      claiming config detailed cache' layers modes := by
  unfold claiming
  rw [(gathering_congr detailed hmodes hmemo hmemo').1]

theorem findings_congr (config : Config) (detailed : Bool) (hmodes : modes.Nodup)
    (hmemo : Remembers cache layers modes) (hmemo' : Remembers cache' layers modes) :
    findings config detailed cache layers modes =
      findings config detailed cache' layers modes := by
  obtain ⟨_, herrors, hstopped⟩ := gathering_congr detailed hmodes hmemo hmemo'
  unfold findings collisions
  rw [herrors, hstopped, claiming_congr config detailed hmodes hmemo hmemo']

theorem plan_congr (config : Config) (detailed : Bool) (hmodes : modes.Nodup)
    (hmemo : Remembers cache layers modes) (hmemo' : Remembers cache' layers modes) :
    plan config detailed cache layers modes = plan config detailed cache' layers modes := by
  obtain ⟨hresolved, _, hstopped⟩ := gathering_congr detailed hmodes hmemo hmemo'
  unfold plan
  rw [hresolved, hstopped, claiming_congr config detailed hmodes hmemo hmemo']

variable {task : Task} {progress progress' : Progress}

/-- The checks of a build come to the same, whatever is remembered. -/
theorem outcome_checking_congr (hmodes : modes.Nodup)
    (hmemo : Remembers progress.cache layers modes)
    (hmemo' : Remembers progress'.cache layers modes) :
    (checking task progress layers modes).outcome =
      (checking task progress' layers modes).outcome := by
  have hfindings := findings_congr task.config task.detailed hmodes hmemo hmemo'
  have hplan := plan_congr task.config task.detailed hmodes hmemo hmemo'
  have hstopped := (gathering_congr task.detailed hmodes hmemo hmemo').2.2
  cases hdry : task.options.dryRun with
  | true =>
    rw [outcome_checking_of_dry hdry, outcome_checking_of_dry hdry, hfindings, hplan, hstopped]
  | false =>
    rw [outcome_checking_of_normal hdry, outcome_checking_of_normal hdry, hfindings, hplan]

/-- Planning comes to the same if loading does and what is remembered is true. -/
theorem outcome_planning_congr
    (hload : ∀ collect, Loading.Alike
      (Store.load collect task.tree progress.store task.config.layers)
      (Store.load collect task.tree progress'.store task.config.layers))
    (hmemo : ∀ modes, selectModes task.config task.options.modes = .ok modes → modes.Nodup ∧
      Remembers progress.cache
        (Store.load true task.tree progress.store task.config.layers).layers modes ∧
      Remembers progress'.cache
        (Store.load true task.tree progress.store task.config.layers).layers modes) :
    (planning task progress).outcome = (planning task progress').outcome := by
  cases hmodes : selectModes task.config task.options.modes with
  | error e =>
    rw [outcome_planning_of_refused_modes hmodes, outcome_planning_of_refused_modes hmodes]
  | ok modes =>
    have hloading : (loading task progress).outcome = (loading task progress').outcome := by
      have halike := hload task.options.dryRun
      rw [outcome_loading rfl, outcome_loading rfl, halike.layers, halike.errors, halike.stopped]
    cases houtcome : (loading task progress).outcome with
    | error failure =>
      rw [planning_of_modes hmodes, planning_of_modes hmodes,
        Step.outcome_andThen_of_error houtcome,
        Step.outcome_andThen_of_error (hloading.symm.trans houtcome)]
    | ok loaded =>
      obtain ⟨hstopped, herrors⟩ := clean_of_loading_eq_ok houtcome
      obtain ⟨hstopped', herrors'⟩ := clean_of_loading_eq_ok (hloading.symm.trans houtcome)
      obtain ⟨before, hcache, hchecked⟩ :=
        outcome_planning_of_loaded task progress hmodes hstopped herrors
      obtain ⟨before', hcache', hchecked'⟩ :=
        outcome_planning_of_loaded task progress' hmodes hstopped' herrors'
      obtain ⟨hnodup, hremembers, hremembers'⟩ := hmemo modes hmodes
      rw [hchecked, hchecked', ← (hload true).layers]
      rw [← hcache] at hremembers
      rw [← hcache'] at hremembers'
      exact outcome_checking_congr hnodup hremembers hremembers'

end Build

end DesignTokens
