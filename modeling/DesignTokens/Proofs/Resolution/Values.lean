import DesignTokens.Proofs.Resolution.Cache
/-!
# Values come from literals

Resolving makes up no value: what is found for a path is a literal of the tree, or was remembered.
So whatever holds of all literals of the trees that a cache has seen holds of all that it remembers,
and of every resolved value, also where what is remembered is not true of the tree at hand.
-/

set_option autoImplicit false

namespace DesignTokens

/-- All literals in a tree have a property. -/
def TokenTree.AllLiterals (holds : Scalar → Prop) (tree : TokenTree) : Prop :=
  ∀ path token, OrderedMap.get? tree path = some token →
    ∀ literal, token.value = .literal literal → holds literal

namespace Resolution

/-- All remembered values have a property. -/
def Memo.All (holds : Scalar → Prop) (memo : Memo) : Prop :=
  ∀ path found, OrderedMap.get? memo path = some found → holds found.1

variable {holds : Scalar → Prop} {tree : TokenTree} {memo : Memo}

theorem Memo.all_nil (holds : Scalar → Prop) : Memo.All holds [] :=
  fun _ _ h => by cases h

/-- The value that a walk ends at, if it ends at one, has a property. -/
def WalkEnd.All (holds : Scalar → Prop) : WalkEnd → Prop
  | .terminal found _ => holds found.1
  | .missing _ _ | .cycle _ _ | .failed _ => True

/-- A walk ends at a literal of the tree or at a remembered terminal, if it ends at any value. -/
theorem walk_all (htree : tree.AllLiterals holds) (hmemo : Memo.All holds memo)
    (failed visited : List TokenPath) (current : TokenPath) :
    (walk tree memo failed visited current).All holds := by
  fun_induction walk tree memo failed visited current with
  | case1 | case2 | case4 => trivial
  | case3 visited current _ _ found hget => exact hmemo current found hget
  | case5 visited current _ _ _ token hget value hvalue =>
    exact htree current token hget value hvalue
  | case6 visited current _ _ _ token hget target hvalue _ ih => exact ih

theorem Memo.All.set_all {found : Terminal} {passed : List TokenPath} (h : Memo.All holds memo)
    (hfound : holds found.1) :
    Memo.All holds (passed.foldl (fun memo path => OrderedMap.set memo path found) memo) := by
  induction passed generalizing memo with
  | nil => exact h
  | cons path rest ih =>
    refine ih ?_
    intro other terminal hget
    rw [OrderedMap.get?_set] at hget
    by_cases heq : path = other
    · rw [if_pos heq, Option.some.injEq] at hget
      rwa [← hget]
    · rw [if_neg heq] at hget
      exact h other terminal hget

/-- One path: what is found has the property, and what is remembered afterwards has it. -/
theorem Pass.all_resolvePath (htree : tree.AllLiterals holds) (pass : Pass)
    (h : Memo.All holds pass.memo) (mode : String) (start : TokenPath) :
    (∀ found, (pass.resolvePath tree mode start).1 = .ok found → holds found.1) ∧
      Memo.All holds (pass.resolvePath tree mode start).2.memo := by
  unfold Pass.resolvePath
  cases hget : OrderedMap.get? pass.memo start with
  | some found =>
    refine ⟨fun found' hfound => ?_, h⟩
    cases hfound
    exact h start found hget
  | none =>
    have hwalk := walk_all htree h pass.failed [] start
    simp only
    cases hend : walk tree pass.memo pass.failed [] start with
    | terminal found passed =>
      rw [hend] at hwalk
      refine ⟨fun found' hfound => ?_, h.set_all hwalk⟩
      cases hfound
      exact hwalk
    | missing | cycle | failed =>
      refine ⟨fun found' hfound => ?_, h⟩
      cases hfound

/-- A whole pass: so does every resolved value. -/
theorem all_resolveEntries (htree : tree.AllLiterals holds) (pass : Pass)
    (h : Memo.All holds pass.memo) (collect : Bool) (mode : String)
    (entries : List (TokenPath × Token)) :
    (∀ entry ∈ (resolveEntries collect tree mode pass entries).resolved,
      holds entry.2.value) ∧
      Memo.All holds (resolveEntries collect tree mode pass entries).pass.memo := by
  induction entries generalizing pass with
  | nil => exact ⟨fun entry hmem => absurd hmem List.not_mem_nil, h⟩
  | cons entry rest ih =>
    obtain ⟨path, token⟩ := entry
    obtain ⟨hfound, hafter⟩ := Pass.all_resolvePath htree pass h mode path
    rw [resolveEntries]
    generalize pass.resolvePath tree mode path = attempt at hfound hafter ⊢
    obtain ⟨result, after⟩ := attempt
    simp only at hfound hafter
    obtain ⟨hresolved, hmemo⟩ := ih after hafter
    -- A failure adds no value, and ends the pass unless failures are gathered.
    cases result with
    | ok found =>
      refine ⟨fun entry hmem => ?_, hmemo⟩
      rcases List.mem_cons.mp hmem with rfl | hrest
      · exact hfound found rfl
      · exact hresolved entry hrest
    | error why =>
      cases why with
      | reported => exact ⟨hresolved, hmemo⟩
      | error e =>
        cases collect with
        | true => exact ⟨hresolved, hmemo⟩
        | false => exact ⟨fun entry hmem => absurd hmem List.not_mem_nil, hafter⟩

end Resolution

/-! ## The cache -/

namespace ResolutionCache

/-- All values that a cache remembers have a property. -/
def All (holds : Scalar → Prop) (cache : ResolutionCache) : Prop :=
  ∀ mode held, OrderedMap.get? cache.modes mode = some held → Resolution.Memo.All holds held.memo

variable {holds : Scalar → Prop} {cache : ResolutionCache} {tree : TokenTree}

theorem all_empty (holds : Scalar → Prop) : All holds empty :=
  fun _ _ h => by cases h

theorem All.memoFor (h : All holds cache) (mode : String) (tree : TokenTree) :
    Resolution.Memo.All holds (cache.memoFor mode tree) := by
  unfold ResolutionCache.memoFor
  split
  · rename_i held _ hget _
    split
    · exact h mode held hget
    · exact Resolution.Memo.all_nil holds
  · exact Resolution.Memo.all_nil holds

theorem All.hold (h : All holds cache) {mode : String} {memo : Memo}
    (hmemo : Resolution.Memo.All holds memo) {cache' : ResolutionCache}
    (hmodes : cache'.modes = cache.hold mode tree memo) : All holds cache' := by
  intro key held hget
  rw [hmodes] at hget
  unfold ResolutionCache.hold at hget
  split at hget
  · rw [OrderedMap.get?_set] at hget
    by_cases hkey : mode = key
    · rw [if_pos hkey, Option.some.injEq] at hget
      rwa [← hget]
    · rw [if_neg hkey] at hget
      exact h key held hget
  · exact h key held hget

theorem All.bind (h : All holds cache) (mode : String) (tree : TokenTree) :
    All holds (cache.bind mode tree) :=
  h.hold (h.memoFor mode tree) rfl

/-- Resolving a tree whose literals have the property yields values that have it, and keeps it. -/
theorem All.resolve (h : All holds cache) (htree : tree.AllLiterals holds) (collect : Bool)
    (mode : String) :
    (∀ entry ∈ (cache.resolve collect tree mode).1.resolved, holds entry.2.value) ∧
      All holds (cache.resolve collect tree mode).2 := by
  obtain ⟨hresolved, hmemo⟩ := Resolution.all_resolveEntries htree
    (cache.startPass mode tree) (h.memoFor mode tree) collect mode tree
  unfold ResolutionCache.resolve
  split
  · exact ⟨nofun, h⟩
  · exact ⟨hresolved, (h.bind mode tree).hold hmemo rfl⟩

theorem All.resolvePath (h : All holds cache) (htree : tree.AllLiterals holds) (mode : String)
    (path : TokenPath) : All holds (cache.resolvePath tree mode path).2 := by
  have hpass := (Resolution.Pass.all_resolvePath htree (cache.startPass mode tree)
    (h.memoFor mode tree) mode path).2
  unfold ResolutionCache.resolvePath
  split
  · exact h
  · unfold lookUp
    simp only
    split
    · split <;> exact (h.bind mode tree).hold hpass rfl
    · exact h.bind mode tree

/-- Every call that resolves such a tree keeps it. -/
theorem All.answer (h : All holds cache) {call : ResolutionCall}
    (hcall : ∀ tree ∈ call.tree?, tree.AllLiterals holds) : All holds (cache.answer call).2 := by
  cases call with
  | resolve collect tree mode =>
    have hafter := (h.resolve (hcall tree rfl) collect mode).2
    unfold ResolutionCache.answer
    simp only
    split <;> exact hafter
  | resolvePath tree mode path =>
    have hafter := h.resolvePath (hcall tree rfl) mode path
    unfold ResolutionCache.answer
    simp only
    split <;> exact hafter
  | clear => exact fun _ _ hget => by cases hget

theorem All.after {history : List ResolutionCall} (h : All holds cache)
    (hhistory : ∀ tree ∈ ResolutionCall.trees history, tree.AllLiterals holds) :
    All holds (cache.after history) := by
  induction history generalizing cache with
  | nil => exact h
  | cons call later ih =>
    refine ih (h.answer fun tree htree => ?_) fun tree htree => ?_
    · exact hhistory tree (List.mem_filterMap.mpr ⟨call, List.mem_cons_self, htree⟩)
    · obtain ⟨call', hcall', hcalltree⟩ := List.mem_filterMap.mp htree
      exact hhistory tree (List.mem_filterMap.mpr ⟨call', List.mem_cons_of_mem _ hcall', hcalltree⟩)

end ResolutionCache

end DesignTokens
