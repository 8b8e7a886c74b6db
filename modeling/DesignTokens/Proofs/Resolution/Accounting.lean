import DesignTokens.Proofs.Resolution.Cache
import DesignTokens.Proofs.Resolution.Repeat
import DesignTokens.Proofs.Resolution.Yields
import Mathlib.Data.Set.Card
/-!
# What a cache counts and holds

Entries are written for whole chains at once and by look-ups of single paths, walks that fail write
nothing, and a use is counted before its outcome is known.  Still every path that a pass asks for is
counted once, as a hit or as a miss; after a gathering pass the paths that are remembered are those
that lead to a literal, whatever the cache was used for before; and what a mode is bound to is told by
the uses since the cache was last cleared.
-/

set_option autoImplicit false

namespace DesignTokens

/-! ## A gathering pass, path by path -/

namespace Resolution

variable {tree : TokenTree} {mode : String} {pass : Pass} {start path : TokenPath}
  {terminal : Terminal}

/-- The paths whose references lead to a literal. -/
def reached (tree : TokenTree) : Set TokenPath :=
  {path | ∃ terminal, Leads tree path terminal}

/-- A pass once it has asked for paths, one after the other. -/
def Pass.through (pass : Pass) (tree : TokenTree) (mode : String) (paths : List TokenPath) : Pass :=
  paths.foldl (fun pass path => (pass.resolvePath tree mode path).2) pass

/-- A gathering pass asks for every path, whatever it finds. -/
theorem pass_resolveEntries (tree : TokenTree) (mode : String) (pass : Pass)
    (entries : List (TokenPath × Token)) :
    (resolveEntries true tree mode pass entries).pass =
      pass.through tree mode (OrderedMap.keys entries) := by
  unfold Pass.through OrderedMap.keys
  fun_induction resolveEntries true tree mode pass entries with
  | case1 pass => rfl
  | case2 pass path token rest found after hpath more ih =>
    rw [List.map_cons, List.foldl_cons, hpath]
    exact ih
  | case3 pass path token rest after hpath ih =>
    rw [List.map_cons, List.foldl_cons, hpath]
    exact ih
  | case4 pass path token rest e after hpath _ more ih =>
    rw [List.map_cons, List.foldl_cons, hpath]
    exact ih
  | case5 pass path token rest e after _ hcollect => exact absurd rfl hcollect

/-- Every path is counted once, as a hit or as a miss. -/
theorem Pass.uses_resolvePath (pass : Pass) (tree : TokenTree) (mode : String)
    (start : TokenPath) :
    (pass.resolvePath tree mode start).2.hits + (pass.resolvePath tree mode start).2.misses =
      pass.hits + pass.misses + 1 := by
  unfold Pass.resolvePath
  cases OrderedMap.get? pass.memo start with
  | some found =>
    simp only
    omega
  | none =>
    simp only
    cases walk tree pass.memo pass.failed [] start <;>
      simp only [Pass.remember, Pass.fail] <;> omega

theorem Pass.uses_through (pass : Pass) (tree : TokenTree) (mode : String)
    (paths : List TokenPath) :
    (pass.through tree mode paths).hits + (pass.through tree mode paths).misses =
      pass.hits + pass.misses + paths.length := by
  induction paths generalizing pass with
  | nil => rfl
  | cons path rest ih =>
    have hfirst := pass.uses_resolvePath tree mode path
    have hrest := ih (pass.resolvePath tree mode path).2
    unfold Pass.through at hrest ⊢
    rw [List.foldl_cons, hrest, List.length_cons]
    omega

/-- Paths are remembered once each. -/
theorem Pass.nodup_keys_resolvePath (h : (OrderedMap.keys pass.memo).Nodup) (tree : TokenTree)
    (mode : String) (start : TokenPath) :
    (OrderedMap.keys (pass.resolvePath tree mode start).2.memo).Nodup := by
  unfold Pass.resolvePath
  cases OrderedMap.get? pass.memo start with
  | some found => exact h
  | none =>
    simp only
    cases walk tree pass.memo pass.failed [] start with
    | terminal found passed =>
      simp only [Pass.remember]
      induction passed generalizing pass with
      | nil => exact h
      | cons path rest ih =>
        have hset := OrderedMap.nodup_keys_set h path found
        exact @ih { pass with memo := OrderedMap.set pass.memo path found } hset
    | missing passed path | cycle passed path | failed passed => exact h

theorem Pass.nodup_keys_through (h : (OrderedMap.keys pass.memo).Nodup) (tree : TokenTree)
    (mode : String) (paths : List TokenPath) :
    (OrderedMap.keys (pass.through tree mode paths).memo).Nodup := by
  induction paths generalizing pass with
  | nil => exact h
  | cons path rest ih => exact ih (pass.nodup_keys_resolvePath h tree mode path)

theorem Pass.Sound.through (h : pass.Sound tree) (mode : String) (paths : List TokenPath) :
    (pass.through tree mode paths).Sound tree := by
  induction paths generalizing pass with
  | nil => exact h
  | cons path rest ih => exact ih (h.after_resolvePath mode path)

theorem Pass.keeps_through (pass : Pass) (tree : TokenTree) (mode : String)
    (paths : List TokenPath) : Memo.Keeps pass.memo (pass.through tree mode paths).memo := by
  induction paths generalizing pass with
  | nil => exact Memo.Keeps.refl _
  | cons path rest ih => exact (pass.keeps_resolvePath tree mode path).1.trans (ih _)

/-- Every path that leads to a literal is remembered once it has been asked for. -/
theorem Pass.Sound.get?_through (h : pass.Sound tree) (mode : String) {paths : List TokenPath}
    (hpath : path ∈ paths) (hleads : Leads tree path terminal) :
    OrderedMap.get? (pass.through tree mode paths).memo path = some terminal := by
  induction paths generalizing pass with
  | nil => cases hpath
  | cons first rest ih =>
    have hafter := h.after_resolvePath mode first
    rcases List.mem_cons.mp hpath with rfl | hrest
    · have hfound := (h.resolvePath_of_leads mode hleads).1
      have hheld := (pass.keeps_resolvePath tree mode path).2 terminal hfound
      exact Pass.keeps_through _ tree mode rest path terminal hheld
    · exact ih hafter hrest

/-! ## A pass that knows everything -/

/-- What is remembered are just the paths that lead to a literal. -/
def Memo.Exact (tree : TokenTree) (memo : Memo) : Prop :=
  ∀ path terminal, OrderedMap.get? memo path = some terminal ↔ Leads tree path terminal

/-- After all paths of a tree, what is remembered is exact. -/
theorem Pass.Sound.exact_through (h : pass.Sound tree) (mode : String) :
    Memo.Exact tree (pass.through tree mode (OrderedMap.keys tree)).memo := by
  intro path terminal
  constructor
  · intro hget
    exact (h.through mode _).memo path terminal hget
  · intro hleads
    exact h.get?_through mode hleads.mem_keys hleads

theorem Memo.Exact.isSome_iff {memo : Memo} (h : Memo.Exact tree memo) :
    (OrderedMap.get? memo path).isSome = true ↔ path ∈ reached tree := by
  rw [Option.isSome_iff_exists]
  exact exists_congr fun terminal => h path terminal

/-- A pass that knows all terminals learns nothing, and hits just what is remembered. -/
theorem Pass.Sound.resolvePath_of_exact (h : pass.Sound tree) (hexact : Memo.Exact tree pass.memo)
    (mode : String) (start : TokenPath) :
    (pass.resolvePath tree mode start).2.memo = pass.memo ∧
      (pass.resolvePath tree mode start).2.hits =
        pass.hits + if (OrderedMap.get? pass.memo start).isSome then 1 else 0 := by
  cases hget : OrderedMap.get? pass.memo start with
  | some found =>
    rw [Pass.resolvePath_of_get? hget]
    exact ⟨rfl, rfl⟩
  | none =>
    have hnot : ∀ terminal, ¬ Leads tree start terminal := by
      intro terminal hleads
      rw [(hexact start terminal).mpr hleads] at hget
      cases hget
    obtain ⟨why, passed, _, _, hfailed⟩ := h.resolvePath_of_not_leads mode hnot
    rw [hfailed]
    exact ⟨rfl, rfl⟩

theorem Pass.Sound.through_of_exact (h : pass.Sound tree) (hexact : Memo.Exact tree pass.memo)
    (mode : String) (paths : List TokenPath) :
    (pass.through tree mode paths).memo = pass.memo ∧
      (pass.through tree mode paths).hits = pass.hits +
        paths.countP fun path => (OrderedMap.get? pass.memo path).isSome := by
  induction paths generalizing pass with
  | nil => exact ⟨rfl, rfl⟩
  | cons path rest ih =>
    obtain ⟨hmemo, hhits⟩ := h.resolvePath_of_exact hexact mode path
    obtain ⟨hrest, hmore⟩ := ih (h.after_resolvePath mode path) (hmemo ▸ hexact)
    rw [hmemo] at hrest hmore
    rw [hhits] at hmore
    unfold Pass.through at hrest hmore ⊢
    rw [List.foldl_cons, List.countP_cons]
    refine ⟨hrest, ?_⟩
    rw [hmore]
    omega

/-- Distinct members are as many as the set that they make. -/
theorem ncard_eq_length {paths : List TokenPath} (hnodup : paths.Nodup) {set : Set TokenPath}
    (hmem : ∀ path, path ∈ paths ↔ path ∈ set) : set.ncard = paths.length := by
  have hset : set = (paths.toFinset : Set TokenPath) := by
    ext path
    rw [← hmem, List.coe_toFinset, Set.mem_ofPred_eq]
  rw [hset, Set.ncard_coe_finset, List.toFinset_card_of_nodup hnodup]

/-- As many terminals are remembered as paths lead to a literal. -/
theorem Memo.Exact.length_eq {memo : Memo} (h : Memo.Exact tree memo)
    (hnodup : (OrderedMap.keys memo).Nodup) : memo.length = (reached tree).ncard := by
  rw [ncard_eq_length hnodup fun path => ?_]
  · exact (List.length_map _).symm
  · rw [← OrderedMap.get?_isSome_iff, h.isSome_iff]

/-- As many paths of a tree are remembered. -/
theorem Memo.Exact.countP_eq {memo : Memo} (h : Memo.Exact tree memo)
    (htree : (OrderedMap.keys tree).Nodup) :
    (OrderedMap.keys tree).countP (fun path => (OrderedMap.get? memo path).isSome) =
      (reached tree).ncard := by
  rw [List.countP_eq_length_filter, ncard_eq_length (htree.filter _)]
  intro path
  rw [List.mem_filter, h.isSome_iff, and_iff_right_iff_imp]
  intro ⟨terminal, hleads⟩
  exact hleads.mem_keys

end Resolution

/-! ## Uses of a cache -/

/-- A use of a cache: a call that resolves, or binding a mode to a fingerprint and no more. -/
inductive CacheUse where
  | call (call : ResolutionCall)
  | bind (mode fingerprint : String)

namespace CacheUse

/-- The tree that a use resolves. -/
def tree? : CacheUse → Option TokenTree
  | .call made => made.tree?
  | .bind _ _ => none

end CacheUse

namespace ResolutionCache

open Resolution

variable {cache : ResolutionCache} {tree : TokenTree} {mode other fingerprint : String}
  {history : List CacheUse} {used : CacheUse}

/-- Binds a mode to a fingerprint: what is remembered for another one is dropped, and that counts as
an invalidation. -/
def bindTo (cache : ResolutionCache) (mode fingerprint : String) : ResolutionCache :=
  match OrderedMap.get? cache.modes mode with
  | none => { cache with modes := OrderedMap.set cache.modes mode ⟨fingerprint, []⟩ }
  | some held =>
    if held.fingerprint = fingerprint then cache
    else
      { cache with
        modes := OrderedMap.set cache.modes mode ⟨fingerprint, []⟩
        invalidations := cache.invalidations + 1 }

/-- A call binds its mode to the fingerprint of its tree. -/
theorem bind_eq_bindTo (h : tree.fingerprint = .ok fingerprint) (cache : ResolutionCache)
    (mode : String) : cache.bind mode tree = cache.bindTo mode fingerprint := by
  unfold bind bindTo memoFor isStale hold
  rw [h]
  cases hget : OrderedMap.get? cache.modes mode with
  | none => rfl
  | some held =>
    simp only
    by_cases hsame : held.fingerprint = fingerprint
    · have hset : OrderedMap.set cache.modes mode ⟨fingerprint, held.memo⟩ = cache.modes := by
        rw [← hsame]
        exact OrderedMap.set_of_get? hget
      simp [hsame, hset]
    · simp [hsame]

/-- The cache that a use leaves. -/
def use (cache : ResolutionCache) : CacheUse → ResolutionCache
  | .call call => (cache.answer call).2
  | .bind mode fingerprint => cache.bindTo mode fingerprint

theorem use_resolve (cache : ResolutionCache) (collect : Bool) (tree : TokenTree)
    (mode : String) :
    cache.use (.call (.resolve collect tree mode)) = (cache.resolve collect tree mode).2 := by
  unfold use answer
  simp only
  split <;> rfl

theorem use_resolvePath (cache : ResolutionCache) (tree : TokenTree) (mode : String)
    (path : TokenPath) :
    cache.use (.call (.resolvePath tree mode path)) = (cache.resolvePath tree mode path).2 := by
  unfold use answer
  simp only
  split <;> rfl

/-- What a cache holds is true of the trees that it may be asked for, and no path is there twice. -/
structure Orderly (trees : List TokenTree) (cache : ResolutionCache) : Prop where
  sound : Sound trees cache
  nodup : ∀ mode held, OrderedMap.get? cache.modes mode = some held →
    (OrderedMap.keys held.memo).Nodup

variable {trees : List TokenTree}

theorem orderly_of_no_modes (h : cache.modes = []) : Orderly trees cache := by
  constructor
  · intro mode held hget
    rw [h] at hget
    cases hget
  · intro mode held hget
    rw [h] at hget
    cases hget

/-- Holding the memories of a mode under a fingerprint keeps a cache in order if they are true of the
trees with that fingerprint. -/
theorem Orderly.set (h : Orderly trees cache) {memo : Memo} {after : ResolutionCache}
    (hsound : ∀ tree ∈ trees, tree.fingerprint = .ok fingerprint → Memo.Sound tree memo)
    (hnodup : (OrderedMap.keys memo).Nodup)
    (hafter : after.modes = OrderedMap.set cache.modes mode ⟨fingerprint, memo⟩) :
    Orderly trees after := by
  have hcases {key : String} {held : ModeMemo}
      (hget : OrderedMap.get? after.modes key = some held) :
      held = ⟨fingerprint, memo⟩ ∨ OrderedMap.get? cache.modes key = some held := by
    rw [hafter, OrderedMap.get?_set] at hget
    split at hget
    · exact .inl (Option.some.inj hget).symm
    · exact .inr hget
  constructor
  · intro key held hget other hother hfingerprint
    rcases hcases hget with rfl | hold
    · exact hsound other hother hfingerprint
    · exact h.sound key held hold other hother hfingerprint
  · intro key held hget
    rcases hcases hget with rfl | hold
    · exact hnodup
    · exact h.nodup key held hold

theorem Orderly.bindTo (h : Orderly trees cache) (mode fingerprint : String) :
    Orderly trees (cache.bindTo mode fingerprint) := by
  have hempty : ∀ tree ∈ trees, tree.fingerprint = .ok fingerprint → Memo.Sound tree [] :=
    fun tree _ _ => Memo.sound_nil tree
  unfold ResolutionCache.bindTo
  split
  · exact h.set hempty .nil rfl
  · split
    · exact h
    · exact h.set hempty .nil rfl

theorem Orderly.nodup_memoFor (h : Orderly trees cache) (mode : String) (tree : TokenTree) :
    (OrderedMap.keys (cache.memoFor mode tree)).Nodup := by
  unfold memoFor
  split
  · rename_i held _ hget _
    split
    · exact h.nodup mode held hget
    · exact .nil
  · exact .nil

/-- What a pass over a tree knows is kept under the tree's fingerprint. -/
theorem Orderly.absorb_bind (h : Orderly trees cache) (hdistinguished : Distinguished trees)
    (htree : tree ∈ trees) (hprint : tree.fingerprint = .ok fingerprint) (mode : String)
    {pass : Pass} (hpass : pass.Sound tree) (hnodup : (OrderedMap.keys pass.memo).Nodup) :
    Orderly trees ((cache.bind mode tree).absorb mode tree pass) := by
  have hsound : ∀ other ∈ trees, other.fingerprint = .ok fingerprint →
      Memo.Sound other pass.memo := fun other hother hfingerprint =>
    hdistinguished.memo_sound htree hother hprint hfingerprint hpass.memo
  have hmodes : ((cache.bindTo mode fingerprint).absorb mode tree pass).modes =
      OrderedMap.set (cache.bindTo mode fingerprint).modes mode ⟨fingerprint, pass.memo⟩ := by
    unfold ResolutionCache.absorb hold
    rw [hprint]
  rw [bind_eq_bindTo hprint]
  exact (h.bindTo mode fingerprint).set hsound hnodup hmodes

/-- Paths are remembered once each, also by a pass that an error stops. -/
theorem nodup_keys_resolveEntries (collect : Bool) {pass : Pass}
    {entries : List (TokenPath × Token)} (h : (OrderedMap.keys pass.memo).Nodup) :
    (OrderedMap.keys (resolveEntries collect tree mode pass entries).pass.memo).Nodup := by
  fun_induction resolveEntries collect tree mode pass entries with
  | case1 pass => exact h
  | case2 pass path token rest found after hpath more ih =>
    have hafter := pass.nodup_keys_resolvePath h tree mode path
    rw [hpath] at hafter
    exact ih hafter
  | case3 pass path token rest after hpath ih =>
    have hafter := pass.nodup_keys_resolvePath h tree mode path
    rw [hpath] at hafter
    exact ih hafter
  | case4 pass path token rest e after hpath _ more ih =>
    have hafter := pass.nodup_keys_resolvePath h tree mode path
    rw [hpath] at hafter
    exact ih hafter
  | case5 pass path token rest e after hpath _ =>
    have hafter := pass.nodup_keys_resolvePath h tree mode path
    rwa [hpath] at hafter

theorem Orderly.use (h : Orderly trees cache) (hdistinguished : Distinguished trees)
    (hused : ∀ tree ∈ used.tree?, tree ∈ trees) : Orderly trees (cache.use used) := by
  cases used with
  | bind mode fingerprint => exact h.bindTo mode fingerprint
  | call call =>
    cases call with
    | clear => exact orderly_of_no_modes rfl
    | resolve collect tree mode =>
      have htree : tree ∈ trees := hused tree rfl
      have hstart := h.sound.startPass mode htree
      rw [use_resolve]
      unfold resolve
      cases hprint : tree.fingerprint with
      | error cause => exact h
      | ok fingerprint =>
        exact h.absorb_bind hdistinguished htree hprint mode (hstart.after_resolveEntries collect)
          (nodup_keys_resolveEntries collect (h.nodup_memoFor mode tree))
    | resolvePath tree mode path =>
      have htree : tree ∈ trees := hused tree rfl
      have hstart := h.sound.startPass mode htree
      rw [use_resolvePath]
      unfold resolvePath
      cases hprint : tree.fingerprint with
      | error cause => exact h
      | ok fingerprint =>
        have habsorbed := h.absorb_bind hdistinguished htree hprint mode
          (hstart.after_resolvePath mode path)
          ((cache.startPass mode tree).nodup_keys_resolvePath (h.nodup_memoFor mode tree) tree mode
            path)
        unfold lookUp
        simp only
        split
        · split <;> exact habsorbed
        · rw [bind_eq_bindTo hprint]
          exact h.bindTo mode fingerprint

/-- A tree has been resolved in a mode, gathering its errors. -/
structure Gathered (before after : ResolutionCache) (tree : TokenTree) (mode : String) :
    Prop where
  /-- The mode holds just the paths that lead to a literal, each with this literal and its type. -/
  get?_iff : ∀ path terminal, after.get? mode path = some terminal ↔ Leads tree path terminal
  /-- No path is there twice, so that there are as many entries as such paths. -/
  held : ∃ held, OrderedMap.get? after.modes mode = some held ∧
    (OrderedMap.keys held.memo).Nodup ∧ held.memo.length = (reached tree).ncard
  /-- Every path of the tree is counted once. -/
  uses : after.hits + after.misses = before.hits + before.misses + tree.length

/-- The same tree has been resolved in the same mode once more. -/
structure Repeated (before after : ResolutionCache) (tree : TokenTree) : Prop where
  hits : after.hits = before.hits + (reached tree).ncard
  misses : after.misses = before.misses + (tree.length - (reached tree).ncard)
  invalidations : after.invalidations = before.invalidations
  modes : after.modes = before.modes

theorem Orderly.gathered (h : Orderly trees cache) (htree : tree ∈ trees)
    (hrenderable : tree.isRenderable = true) (mode : String) :
    Gathered cache (cache.resolve true tree mode).2 tree mode := by
  have hstart := h.sound.startPass mode htree
  have hpass := pass_resolveEntries tree mode (cache.startPass mode tree) tree
  have hexact := hstart.exact_through mode
  have hnodup := (cache.startPass mode tree).nodup_keys_through (h.nodup_memoFor mode tree) tree
    mode (OrderedMap.keys tree)
  have huses := (cache.startPass mode tree).uses_through tree mode (OrderedMap.keys tree)
  rw [← hpass] at hexact hnodup huses
  have hget := get?_modes_resolve hrenderable cache true mode mode
  rw [if_pos rfl] at hget
  rw [resolve_of_isRenderable hrenderable] at hget ⊢
  constructor
  case get?_iff =>
    intro path terminal
    unfold ResolutionCache.get?
    rw [hget, Option.bind_some]
    exact hexact path terminal
  case held => exact ⟨_, hget, hnodup, hexact.length_eq hnodup⟩
  case uses =>
    rw [OrderedMap.keys, List.length_map] at huses
    unfold passOver
    simp only [ResolutionCache.absorb, ResolutionCache.bind]
    unfold startPass at huses ⊢
    simp only at huses
    omega

/-- Resolving a tree of which everything is remembered only counts. -/
theorem repeated_of_exact {memo : Memo} (hexact : Memo.Exact tree memo)
    (hrenderable : tree.isRenderable = true)
    (hheld : OrderedMap.get? cache.modes mode = some ⟨TokenTree.digestOf tree.text, memo⟩)
    (hkeys : (OrderedMap.keys tree).Nodup) :
    Repeated cache (cache.resolve true tree mode).2 tree := by
  have hprint := TokenTree.fingerprint_of_isRenderable hrenderable
  have hmemo : cache.memoFor mode tree = memo := by
    unfold memoFor
    rw [hheld, hprint]
    exact if_pos rfl
  have hbind : cache.bind mode tree = cache := by
    rw [bind_eq_bindTo hprint, bindTo, hheld]
    exact if_pos rfl
  have hsound : Memo.Sound tree memo := fun path terminal => (hexact path terminal).mp
  have hpass := pass_resolveEntries tree mode (cache.startPass mode tree) tree
  have huses := (cache.startPass mode tree).uses_through tree mode (OrderedMap.keys tree)
  unfold startPass at hpass huses
  rw [hmemo] at hpass huses
  obtain ⟨hsame, hhits⟩ := (Pass.sound_of_memo hsound 0 0).through_of_exact hexact mode
    (OrderedMap.keys tree)
  have hlength : (OrderedMap.keys tree).length = tree.length := List.length_map _
  rw [hexact.countP_eq hkeys, Nat.zero_add] at hhits
  rw [hlength, Nat.zero_add, Nat.zero_add] at huses
  rw [resolve_of_isRenderable hrenderable]
  unfold passOver
  simp only [hbind, startPass, hmemo, hpass]
  constructor
  case hits => exact congrArg (cache.hits + ·) hhits
  case misses =>
    simp only [ResolutionCache.absorb]
    omega
  case invalidations => rfl
  case modes =>
    simp only [ResolutionCache.absorb, hsame, hold_of_isRenderable hrenderable]
    exact OrderedMap.set_of_get? hheld

theorem Orderly.repeated (h : Orderly trees cache) (htree : tree ∈ trees)
    (hrenderable : tree.isRenderable = true) (hkeys : (OrderedMap.keys tree).Nodup)
    (mode : String) :
    Repeated (cache.resolve true tree mode).2
      ((cache.resolve true tree mode).2.resolve true tree mode).2 tree := by
  have hget := get?_modes_resolve hrenderable cache true mode mode
  have hpass := pass_resolveEntries tree mode (cache.startPass mode tree) tree
  rw [if_pos rfl] at hget
  refine repeated_of_exact ?_ hrenderable hget hkeys
  rw [resolve_of_isRenderable hrenderable]
  have hexact := (h.sound.startPass mode htree).exact_through mode
  rwa [← hpass] at hexact

end ResolutionCache

end DesignTokens
