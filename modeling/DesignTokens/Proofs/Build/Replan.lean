import DesignTokens.Proofs.Build.ModeSelection
import DesignTokens.Proofs.Resolution.Repeat
import DesignTokens.Proofs.Store.Repeat
/-!
# Planning again

What planning leaves is enough to plan the same again: no document is read, and every path of every
mode is found remembered.  This needs no trust in what was kept before; whatever it was, the second
time it is the same.
-/

set_option autoImplicit false

namespace DesignTokens.Build

variable {task : Task} {progress : Progress} {planned : Planned} {detailed : Bool}
  {cache known : ResolutionCache} {composed : List (String × TokenTree)} {layers : List Layer}
  {modes : List String}

/-! ## Resolving all modes again -/

/-- What is held for modes that are not resolved stays. -/
theorem get?_modes_resolveAll_of_not_mem (detailed : Bool) {mode : String}
    (hmode : mode ∉ composed.map (·.1)) :
    OrderedMap.get? (resolveAll true detailed cache composed).cache.modes mode =
      OrderedMap.get? cache.modes mode := by
  induction composed generalizing cache with
  | nil => rfl
  | cons entry rest ih =>
    obtain ⟨first, tree⟩ := entry
    rw [List.map_cons, List.mem_cons, not_or] at hmode
    rw [resolveAll]
    cases hrenderable : tree.isRenderable with
    | false =>
      rw [ResolutionCache.resolve_of_not_isRenderable hrenderable]
      rfl
    | true =>
      simp only [ResolutionCache.stopped_resolve_true hrenderable]
      rw [ih hmode.2, ResolutionCache.get?_modes_resolve hrenderable, if_neg (Ne.symm hmode.1)]

/-- How many tokens some resolved trees have. -/
def tokenCount (resolved : ByMode ResolvedTree) : Nat :=
  (resolved.map fun tree => tree.2.length).sum

/-- If all modes were resolved without an error, resolving them with what is then held for them only
counts hits: one for every token of every mode. -/
theorem resolveAll_again (hmodes : (composed.map (·.1)).Nodup)
    (hwithin : Cascade.WithinDigits composed)
    (herrors : (resolveAll true detailed cache composed).errors = [])
    (hknown : ∀ mode ∈ composed.map (·.1), OrderedMap.get? known.modes mode =
      OrderedMap.get? (resolveAll true detailed cache composed).cache.modes mode) :
    (resolveAll true detailed known composed).resolved =
        (resolveAll true detailed cache composed).resolved ∧
      (resolveAll true detailed known composed).errors = [] ∧
      (resolveAll true detailed known composed).cache = { known with
        hits := known.hits + tokenCount (resolveAll true detailed cache composed).resolved } := by
  induction composed generalizing cache known with
  | nil => exact ⟨rfl, rfl, rfl⟩
  | cons entry rest ih =>
    obtain ⟨mode, tree⟩ := entry
    obtain ⟨hfirstWithin, hlaterWithin⟩ := List.forall_mem_cons.mp hwithin
    have hrenderable := (TokenTree.isRenderable_iff tree).mpr hfirstWithin
    rw [List.map_cons, List.nodup_cons] at hmodes
    rw [(resolveAll_cons_of_isRenderable hrenderable).1, List.append_eq_nil_iff] at herrors
    obtain ⟨hfirst, hlater⟩ := herrors
    have hclean : (cache.resolve true tree mode).1.Clean :=
      ⟨hfirst, ResolutionCache.stopped_resolve_true hrenderable cache mode⟩
    have hkept (key : String) : OrderedMap.get?
        (resolveAll true detailed cache ((mode, tree) :: rest)).cache.modes key = OrderedMap.get?
          (resolveAll true detailed (cache.resolve true tree mode).2 rest).cache.modes key := by
      rw [resolveAll]
      simp only [hclean.stopped]
    have hheld : OrderedMap.get? known.modes mode =
        some ⟨TokenTree.digestOf tree.text, (cache.resolve true tree mode).1.pass.memo⟩ := by
      rw [hknown mode List.mem_cons_self, hkept,
        get?_modes_resolveAll_of_not_mem detailed hmodes.1,
        ResolutionCache.get?_modes_resolve hrenderable, if_pos rfl]
    obtain ⟨hresolved, hagain, hcache⟩ := ResolutionCache.resolve_again hclean hheld true
    obtain ⟨hresolvedRest, herrorsRest, hcacheRest⟩ :
        (resolveAll true detailed (known.resolve true tree mode).2 rest).resolved =
            (resolveAll true detailed (cache.resolve true tree mode).2 rest).resolved ∧
          (resolveAll true detailed (known.resolve true tree mode).2 rest).errors = [] ∧
          (resolveAll true detailed (known.resolve true tree mode).2 rest).cache =
            { (known.resolve true tree mode).2 with
              hits := (known.resolve true tree mode).2.hits + tokenCount
                (resolveAll true detailed (cache.resolve true tree mode).2 rest).resolved } := by
      refine ih hmodes.2 hlaterWithin hlater fun key hkey => ?_
      rw [hcache, ← hkept]
      exact hknown key (List.mem_cons_of_mem _ hkey)
    have hcount : (resolveAll true detailed cache ((mode, tree) :: rest)).resolved =
        (mode, (cache.resolve true tree mode).1.resolved) ::
          (resolveAll true detailed (cache.resolve true tree mode).2 rest).resolved := by
      rw [resolveAll]
      simp only [hclean.stopped]
    refine ⟨?_, ?_, ?_⟩
    · rw [hcount, ← hresolved, ← hresolvedRest, resolveAll]
      simp only [hagain.stopped]
    · rw [(resolveAll_cons_of_isRenderable hrenderable).1, hagain.errors, herrorsRest]
      rfl
    · rw [hcount, resolveAll]
      simp only [hagain.stopped]
      rw [hcacheRest, hcache]
      simp only [tokenCount, List.map_cons, List.sum_cons, Nat.add_assoc]

/-- Checks without findings have none either with what they have left for the modes, and plan the
same. -/
theorem findings_again {config : Config}
    (hstopped : (gathering detailed cache layers modes).stopped = none)
    (h : findings config detailed cache layers modes = [])
    (hknown : known.modes = (gathering detailed cache layers modes).cache.modes) :
    findings config detailed known layers modes = [] ∧
      plan config detailed known layers modes = plan config detailed cache layers modes ∧
      (gathering detailed known layers modes).cache = { known with
        hits := known.hits + tokenCount (gathering detailed cache layers modes).resolved } := by
  obtain ⟨hgaps, hresolvable, hcollisions⟩ := findings_eq_nil hstopped h
  have hwithin := stopped_gathering_eq_none_iff.mp hstopped
  have hstopped' : (gathering detailed known layers modes).stopped = none :=
    stopped_gathering_eq_none_iff.mpr hwithin
  obtain ⟨hresolved, hagain, hhits⟩ :
      (gathering detailed known layers modes).resolved =
          (gathering detailed cache layers modes).resolved ∧
        (gathering detailed known layers modes).errors = [] ∧
        (gathering detailed known layers modes).cache = { known with
          hits := known.hits + tokenCount (gathering detailed cache layers modes).resolved } := by
    refine resolveAll_again (OrderedMap.nodup_keys_ofPairs _) hwithin hresolvable fun mode _ => ?_
    rw [hknown]
    rfl
  have hclaims : claiming config detailed known layers modes =
      claiming config detailed cache layers modes := by
    unfold claiming
    rw [hresolved]
  refine ⟨?_, ?_, hhits⟩
  · unfold findings
    rw [hgaps, hagain, collisions_of_stopped_eq_none hstopped', hclaims, hcollisions]
    rfl
  · unfold plan
    simp only [hresolved, hclaims, hstopped, hstopped']

/-! ## What planning leaves -/

theorem cache_resolving {composed : ByMode TokenTree} :
    (resolving task progress composed).progress.cache =
      (resolveAll task.options.dryRun task.detailed progress.cache composed).cache := by
  unfold resolving
  simp only
  split <;> rfl

/-- Without findings, all modes are resolved alike, whether errors are gathered or not. -/
theorem resolveAll_eq_gathering {config : Config}
    (h : findings config detailed cache layers modes = []) (collect : Bool) :
    resolveAll collect detailed cache (Cascade.composeAll layers modes) =
      gathering detailed cache layers modes := by
  obtain ⟨hgathered, _⟩ := List.append_eq_nil_iff.mp h
  cases collect with
  | true => rfl
  | false => exact resolveAll_strict_of_errors_eq_nil (List.append_eq_nil_iff.mp hgathered).2

/-- Checks that go through leave what resolving all modes leaves. -/
theorem cache_checking (h : (checking task progress layers modes).outcome = .ok planned) :
    (checking task progress layers modes).progress.cache =
      (gathering task.detailed progress.cache layers modes).cache := by
  obtain ⟨hfindings, _⟩ := checking_eq_ok_iff.mp h
  rw [← resolveAll_eq_gathering hfindings task.options.dryRun]
  unfold checking at h ⊢
  obtain ⟨gathered, hgathered, _⟩ := Step.andThen_eq_ok h
  rw [Step.andThen_of_ok hgathered]
  have hresolving : ∀ before : Progress, before.cache = progress.cache →
      (resolving task before (Cascade.composeAll layers modes)).progress.cache =
        (resolveAll task.options.dryRun task.detailed progress.cache
          (Cascade.composeAll layers modes)).cache := by
    intro before hbefore
    rw [cache_resolving, hbefore]
  refine Step.progress_andThen (fun after => after.cache = _) (hresolving _ cache_composing)
    fun all _ => ?_
  refine Step.progress_andThen (fun after => after.cache = _)
    (keeps_naming.cache.trans (hresolving _ cache_composing)) fun identifiers _ => ?_
  exact keeps_formatting.cache.trans (keeps_naming.cache.trans (hresolving _ cache_composing))

/-- What planning that goes through leaves: the documents that it has loaded, the terminals that it
has resolved, and the names of the files in the report. -/
structure Leaves (task : Task) (progress : Progress) (modes : List String) (planned : Planned)
    (after : Progress) : Prop where
  store : after.store = (Store.load true task.tree progress.store task.config.layers).store
  cache : after.cache = (gathering task.detailed progress.cache
    (Store.load true task.tree progress.store task.config.layers).layers modes).cache
  filesPlanned : after.report.filesPlanned = planned.files.map (·.path)

theorem leaves_planning (h : (planning task progress).outcome = .ok planned)
    (hmodes : selectModes task.config task.options.modes = .ok modes) :
    Leaves task progress modes planned (planning task progress).progress := by
  have hformats : (planning task progress).Formats := .inl ⟨planned, h⟩
  obtain ⟨formerly, resolved, identifiers, hformatting⟩ := hformats.exists_formatting hmodes
  refine ⟨?_, ?_, ?_⟩
  · obtain ⟨_, _, _, herrors, _⟩ := planning_eq_ok_iff.mp h
    have hstrict : Store.load task.options.dryRun task.tree progress.store task.config.layers =
        Store.load true task.tree progress.store task.config.layers := by
      cases task.options.dryRun with
      | true => rfl
      | false => exact Store.load_strict_of_errors_eq_nil herrors
    rw [planning_of_modes hmodes, ← hstrict, ← store_loading]
    refine Step.progress_andThen (fun after => after.store = _) rfl fun layers _ => ?_
    exact (resolves_checking ..).store
  · rw [planning_of_modes hmodes] at h ⊢
    obtain ⟨layers, hlayers, hchecked⟩ := Step.andThen_eq_ok h
    rw [Step.andThen_of_ok hlayers, cache_checking hchecked, cache_loading,
      layers_of_loading_eq_ok hlayers]
  · rw [hformatting] at h ⊢
    unfold formatting at h ⊢
    cases hfiles : Css.files task.config resolved identifiers with
    | error failure =>
      rw [hfiles] at h
      cases h
    | ok files =>
      rw [hfiles] at h
      rw [← Except.ok.inj h]
      rfl

/-! ## Once more -/

/-- Where planning went through, planning from what it has left comes to the same, in any tree in
which the documents are untouched.  It leaves the documents as they are, and the terminals but for one
hit for every token of every mode. -/
theorem planning_again {again : Progress} (h : (planning task progress).outcome = .ok planned)
    (hstore : again.store = (planning task progress).progress.store)
    (hcache : again.cache = (planning task progress).progress.cache) {tree : FileTree}
    (huntouched : ∀ source ∈ task.config.layers,
      ∀ path ∈ source.documentPath? progress.store.dataDir,
        FileTree.Untouched path task.tree tree) (refuses : Output.Refusals) :
    let repeated := planning { task with tree := tree, refuses := refuses } again
    repeated.outcome = .ok planned ∧ repeated.progress.store = again.store ∧
      repeated.progress.cache =
        { again.cache with hits := again.cache.hits + tokenCount planned.resolved } ∧
      repeated.progress.report.filesPlanned = planned.files.map (·.path) := by
  obtain ⟨modes, hmodes, hstopped, herrors, hfindings, hplan⟩ := planning_eq_ok_iff.mp h
  obtain ⟨hgathered, hplanned, _⟩ := plan_eq_ok_iff.mp hplan
  have hleaves := leaves_planning h hmodes
  rw [hleaves.store] at hstore
  rw [hleaves.cache] at hcache
  have hload : Store.load true tree again.store task.config.layers =
      { Store.load true task.tree progress.store task.config.layers with store := again.store } :=
    Store.load_again hstopped herrors (hstore ▸ Store.Retains.refl _ _) huntouched true
  generalize Store.load true task.tree progress.store task.config.layers = loaded at *
  obtain ⟨hfindingsAgain, hplanAgain, hhits⟩ :=
    findings_again hgathered hfindings (congrArg ResolutionCache.modes hcache)
  have hrepeated : (planning { task with tree := tree, refuses := refuses } again).outcome =
      .ok planned := by
    refine planning_eq_ok_iff.mpr ⟨modes, hmodes, ?_⟩
    simp only [hload]
    exact ⟨hstopped, herrors, hfindingsAgain, hplanAgain.trans hplan⟩
  have hleavesAgain := leaves_planning hrepeated hmodes
  refine ⟨hrepeated, ?_, ?_, hleavesAgain.filesPlanned⟩
  · rw [hleavesAgain.store]
    simp only [hload]
  · rw [hleavesAgain.cache]
    simp only [hload]
    rw [hhits, hplanned]

end DesignTokens.Build
