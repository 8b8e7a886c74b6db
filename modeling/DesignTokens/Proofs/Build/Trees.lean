import DesignTokens.Proofs.Build.Findings
import DesignTokens.Proofs.Cascade
import DesignTokens.Proofs.Config.Valid
import DesignTokens.Proofs.Css.Sheet
/-!
# The trees of a build

Which modes a build has, in which order, and what their trees hold once nothing is left to find: for
every path of the mode's cascade, in the order of definition, the literal that its references reach
there.
-/

set_option autoImplicit false

namespace DesignTokens

/-! ## Modes -/

namespace Config

variable {config : Config}

theorem Valid.nodup_orderedModes (h : config.Valid) : config.orderedModes.Nodup := by
  unfold orderedModes
  refine List.nodup_cons.mpr ⟨?_, h.modes_nodup.filter _⟩
  simp

theorem Valid.mem_orderedModes (h : config.Valid) {mode : String} :
    mode ∈ config.orderedModes ↔ mode ∈ config.modes := by
  unfold orderedModes
  rw [List.mem_cons, List.mem_filter]
  constructor
  · rintro (rfl | hmem)
    · exact h.default_mem
    · exact hmem.1
  · intro hmem
    by_cases hdefault : mode = config.defaultMode
    · exact .inl hdefault
    · exact .inr ⟨hmem, by simpa using hdefault⟩

end Config

namespace Build

variable {config : Config} {asked : Option (List String)} {modes : List String}

/-- The built modes are some of the ordered ones. -/
theorem exists_filter_of_selectModes (h : selectModes config asked = .ok modes) :
    ∃ chosen : String → Bool, modes = config.orderedModes.filter chosen := by
  unfold selectModes at h
  split at h
  · cases h
    exact ⟨fun _ => true, by simp⟩
  · cases h
    exact ⟨fun _ => true, by simp⟩
  · split at h
    · cases h
    · cases h
      exact ⟨_, rfl⟩

theorem sublist_of_selectModes (h : selectModes config asked = .ok modes) :
    modes.Sublist config.orderedModes := by
  obtain ⟨chosen, rfl⟩ := exists_filter_of_selectModes h
  exact List.filter_sublist

/-- No mode is built twice. -/
theorem nodup_of_selectModes (hvalid : config.Valid) (h : selectModes config asked = .ok modes) :
    modes.Nodup :=
  hvalid.nodup_orderedModes.sublist (sublist_of_selectModes h)

/-- The default mode comes first if it is built. -/
theorem head?_of_selectModes (h : selectModes config asked = .ok modes)
    (hdefault : config.defaultMode ∈ modes) : modes.head? = some config.defaultMode := by
  obtain ⟨chosen, rfl⟩ := exists_filter_of_selectModes h
  have hchosen : chosen config.defaultMode = true := (List.mem_filter.mp hdefault).2
  unfold Config.orderedModes
  rw [List.filter_cons_of_pos hchosen, List.head?_cons]

/-- Some mode is built. -/
theorem ne_nil_of_selectModes (hvalid : config.Valid) (h : selectModes config asked = .ok modes) :
    modes ≠ [] := by
  unfold selectModes at h
  split at h
  · cases h
    simp [Config.orderedModes]
  · cases h
    simp [Config.orderedModes]
  · rename_i named hnamed
    split at h
    · cases h
    · rename_i hknown
      cases h
      cases named with
      | nil => exact absurd rfl hnamed
      | cons mode rest =>
        have hmode : mode ∈ config.modes := by
          simpa using List.find?_eq_none.mp hknown mode List.mem_cons_self
        refine List.ne_nil_of_mem (List.mem_filter.mpr ⟨hvalid.mem_orderedModes.mpr hmode, ?_⟩)
        simp

/-- The mode that decides placement: the default mode if it is built, and else the first one. -/
def placementMode (config : Config) (modes : List String) : String :=
  if config.defaultMode ∈ modes then config.defaultMode else modes.headD ""

theorem placementMode_mem (config : Config) (h : modes ≠ []) : placementMode config modes ∈ modes := by
  unfold placementMode
  by_cases hdefault : config.defaultMode ∈ modes
  · rwa [if_pos hdefault]
  · rw [if_neg hdefault]
    cases modes with
    | nil => exact absurd rfl h
    | cons mode rest => exact List.mem_cons_self

/-- The placement tree is the tree of the placement mode. -/
theorem placementTree_of_selectModes {trees : Css.ResolvedModes}
    (h : selectModes config asked = .ok modes) (hkeys : OrderedMap.keys trees = modes) :
    Css.placementTree config trees =
      (OrderedMap.get? trees (placementMode config modes)).getD [] := by
  subst hkeys
  exact Css.placementTree_eq (head?_of_selectModes h)

/-- The blocks of a sheet stand for the built modes. -/
theorem builtModes_eq {trees : Css.ResolvedModes} (h : selectModes config asked = .ok modes)
    (hkeys : OrderedMap.keys trees = modes) : Css.builtModes config trees = modes := by
  obtain ⟨chosen, hchosen⟩ := exists_filter_of_selectModes h
  unfold Css.builtModes
  rw [hchosen] at hkeys ⊢
  apply List.filter_congr
  intro mode hmode
  rw [Bool.eq_iff_iff, OrderedMap.has_iff_mem_keys, hkeys, List.mem_filter]
  simp [hmode]

end Build

/-! ## Resolving one mode after the other -/

/-- Resolving a mode leaves what is remembered of the others. -/
theorem ResolutionCache.memoFor_resolve_of_ne (cache : ResolutionCache) (collect : Bool)
    (tree tree' : TokenTree) {mode other : String} (h : mode ≠ other) :
    (cache.resolve collect tree mode).2.memoFor other tree' = cache.memoFor other tree' := by
  cases hrenderable : tree.isRenderable with
  | false => rw [resolve_of_not_isRenderable hrenderable]
  | true =>
    have hheld (before : ResolutionCache) (memo : Memo) :
        OrderedMap.get? (before.hold mode tree memo) other =
          OrderedMap.get? before.modes other := by
      rw [hold_of_isRenderable hrenderable, OrderedMap.get?_set, if_neg h]
    rw [resolve_of_isRenderable hrenderable]
    unfold passOver absorb bind memoFor
    simp only [hheld]

/-- Resolving the first of several modes leaves what is remembered of the others true. -/
theorem ResolutionCache.sound_memoFor_resolve {cache : ResolutionCache} {mode : String}
    {tree : TokenTree} {rest : List (String × TokenTree)}
    (hmodes : (((mode, tree) :: rest).map (·.1)).Nodup)
    (hmemo : ∀ entry ∈ (mode, tree) :: rest,
      Resolution.Memo.Sound entry.2 (cache.memoFor entry.1 entry.2)) (collect : Bool) :
    ∀ entry ∈ rest, Resolution.Memo.Sound entry.2
      ((cache.resolve collect tree mode).2.memoFor entry.1 entry.2) := by
  rw [List.map_cons, List.nodup_cons] at hmodes
  intro entry hmem
  have hne : mode ≠ entry.1 := by
    intro heq
    exact hmodes.1 (List.mem_map.mpr ⟨entry, hmem, heq.symm⟩)
  rw [cache.memoFor_resolve_of_ne collect tree entry.2 hne]
  exact hmemo entry (List.mem_cons_of_mem _ hmem)

/-- An entry of a mode and its resolved form. -/
def Build.ResolvesMode (composed : String × TokenTree) (resolved : String × ResolvedTree) : Prop :=
  resolved.1 = composed.1 ∧
    List.Forall₂ (Resolution.ResolvesTo composed.2) composed.2 resolved.2

namespace Build

variable {detailed : Bool} {cache : ResolutionCache}

/-- If all goes through, what is remembered is true and there is no error to find, every mode is
resolved. -/
theorem forall₂_resolveAll {composed : List (String × TokenTree)}
    (hmodes : (composed.map (·.1)).Nodup)
    (hmemo : ∀ entry ∈ composed, Resolution.Memo.Sound entry.2 (cache.memoFor entry.1 entry.2))
    (hwithin : Cascade.WithinDigits composed)
    (herrors : (resolveAll true detailed cache composed).errors = []) :
    List.Forall₂ ResolvesMode composed (resolveAll true detailed cache composed).resolved := by
  induction composed generalizing cache with
  | nil => exact .nil
  | cons entry rest ih =>
    obtain ⟨mode, tree⟩ := entry
    have hrenderable := (Cascade.withinDigits_iff _).mp hwithin _ List.mem_cons_self
    rw [(resolveAll_cons_of_isRenderable hrenderable).1, List.append_eq_nil_iff] at herrors
    obtain ⟨hfirst, hrest⟩ := herrors
    have hstopped : (cache.resolve true tree mode).1.stopped = none :=
      ResolutionCache.stopped_resolve_true hrenderable cache mode
    have hresolved : List.Forall₂ (Resolution.ResolvesTo tree) tree
        (cache.resolve true tree mode).1.resolved := by
      have hsame := ResolutionCache.resolve_strict_of_errors_eq_nil hfirst
      rw [← hsame, ResolutionCache.resolve_of_isRenderable hrenderable] at hstopped ⊢
      refine Resolution.Pass.Sound.forall₂_resolvesTo ?_ rfl hstopped
      exact Resolution.Pass.sound_of_memo (hmemo _ List.mem_cons_self) 0 0
    have hlater := ResolutionCache.sound_memoFor_resolve hmodes hmemo true
    rw [resolveAll]
    simp only [hstopped]
    exact .cons ⟨rfl, hresolved⟩ (ih (List.nodup_cons.mp hmodes).2 hlater
      (fun entry hentry => hwithin entry (List.mem_cons_of_mem _ hentry)) hrest)

variable {layers : List Layer} {modes : List String}

/-- The resolved tree of every built mode, once there is no error to find. -/
theorem forall₂_gathering (hmodes : modes.Nodup)
    (hmemo : ∀ mode ∈ modes, Resolution.Memo.Sound (Cascade.compose layers mode)
      (cache.memoFor mode (Cascade.compose layers mode)))
    (hstopped : (gathering detailed cache layers modes).stopped = none)
    (herrors : (gathering detailed cache layers modes).errors = []) :
    List.Forall₂ (fun mode resolved => ResolvesMode (mode, Cascade.compose layers mode) resolved)
      modes (gathering detailed cache layers modes).resolved := by
  have hwithin := stopped_gathering_eq_none_iff.mp hstopped
  unfold gathering at herrors ⊢
  rw [Cascade.composeAll_of_nodup layers hmodes] at hwithin herrors ⊢
  have hresolved := forall₂_resolveAll (by simpa [Function.comp_def] using hmodes)
    (by simpa using hmemo) hwithin herrors
  rwa [List.forall₂_map_left_iff] at hresolved

end Build

/-! ## Looking up in a resolved tree -/

/-- A resolved tree has the paths of the composed one. -/
theorem Resolution.keys_of_forall₂ {tree : TokenTree} {entries : List (TokenPath × Token)}
    {resolved : ResolvedTree} (h : List.Forall₂ (ResolvesTo tree) entries resolved) :
    OrderedMap.keys resolved = OrderedMap.keys entries := by
  induction h with
  | nil => rfl
  | cons hentry _ ih =>
    unfold OrderedMap.keys at ih ⊢
    rw [List.map_cons, List.map_cons, ih, hentry.1]

/-- Where a composed tree has a token, the resolved one has its resolved form. -/
theorem Resolution.get?_of_forall₂ {tree : TokenTree} {entries : List (TokenPath × Token)}
    {resolved : ResolvedTree} (h : List.Forall₂ (ResolvesTo tree) entries resolved)
    {path : TokenPath} {token : Token} (hget : OrderedMap.get? entries path = some token) :
    ∃ found, Leads tree path found ∧
      OrderedMap.get? resolved path = some (resolvedToken path token found) := by
  induction h with
  | nil => cases hget
  | @cons entry resolved' _ _ hentry _ ih =>
    obtain ⟨hpath, found, hleads, hresolved⟩ := hentry
    rw [OrderedMap.get?_cons] at hget ⊢
    by_cases hkey : entry.1 = path
    · rw [if_pos hkey, Option.some.injEq] at hget
      rw [if_pos (hpath.trans hkey), hresolved, hkey, hget]
      exact ⟨found, hkey ▸ hleads, rfl⟩
    · rw [if_neg hkey] at hget
      rw [if_neg (fun h => hkey (hpath.symm.trans h))]
      exact ih hget

/-- Where references lead in a composed tree, they reach in the cascade. -/
theorem Resolution.Leads.reaches {layers : List Layer} {mode : String} {path : TokenPath}
    {terminal : Terminal} (h : Leads (Cascade.compose layers mode) path terminal) :
    Cascade.Reaches layers mode path terminal.1 := by
  induction h with
  | literal hget hvalue =>
    rw [Cascade.get?_compose] at hget
    exact .literal hget hvalue
  | reference hget hvalue _ ih =>
    rw [Cascade.get?_compose] at hget
    exact .reference hget hvalue ih

end DesignTokens
