import DesignTokens.Proofs.Resolution.Fingerprint
import DesignTokens.Proofs.Resolution.Pass
/-!
# Resolving again

What is remembered is never forgotten within a pass, and nothing else is put in its place.  So a pass
that goes through without an error leaves every path of its tree with the terminal that it has found
for it, and resolving the same tree again finds all of them remembered.
-/

set_option autoImplicit false

namespace DesignTokens

namespace Resolution

variable {tree : TokenTree} {mode : String} {pass : Pass} {entries : List (TokenPath × Token)}
  {memo : Memo} {failed visited : List TokenPath} {current start : TokenPath}

/-! ## One path -/

/-- What is remembered at first is still remembered in the end. -/
def Memo.Keeps (before after : Memo) : Prop :=
  ∀ path terminal, OrderedMap.get? before path = some terminal →
    OrderedMap.get? after path = some terminal

theorem Memo.Keeps.refl (memo : Memo) : Memo.Keeps memo memo :=
  fun _ _ h => h

theorem Memo.Keeps.trans {before between after : Memo} (h : Memo.Keeps before between)
    (hafter : Memo.Keeps between after) : Memo.Keeps before after :=
  fun path terminal hget => hafter path terminal (h path terminal hget)

/-- A walk to a terminal passes the path where it started, and none that another terminal is
remembered for. -/
def WalkEnd.Fills (memo : Memo) (visited : List TokenPath) (current : TokenPath) : WalkEnd → Prop
  | .terminal found passed => visited ++ [current] <+: passed ∧
    ∀ path ∈ passed, ∀ other, OrderedMap.get? memo path = some other → other = found
  | .missing _ _ | .cycle _ _ | .failed _ => True

/-- Where nothing is remembered for the visited paths, only the current one can be remembered. -/
theorem get?_current_of_mem (hvisited : ∀ path ∈ visited, OrderedMap.get? memo path = none)
    {path : TokenPath} (hpath : path ∈ visited ++ [current]) {found : Terminal}
    (hfound : OrderedMap.get? memo path = some found) :
    OrderedMap.get? memo current = some found := by
  cases List.mem_append.mp hpath with
  | inl hold =>
    rw [hvisited path hold] at hfound
    cases hfound
  | inr hlast => rwa [List.mem_singleton.mp hlast] at hfound

/-- A walk stops at the first path that is remembered. -/
theorem walk_fills (hvisited : ∀ path ∈ visited, OrderedMap.get? memo path = none) :
    (walk tree memo failed visited current).Fills memo visited current := by
  fun_induction walk tree memo failed visited current with
  | case1 | case2 | case4 => trivial
  | case3 visited current _ _ found hget =>
    refine ⟨List.prefix_rfl, fun path hpath other hother => ?_⟩
    exact Option.some.inj ((get?_current_of_mem hvisited hpath hother).symm.trans hget)
  | case5 visited current _ _ hget token _ value _ =>
    refine ⟨List.prefix_rfl, fun path hpath other hother => ?_⟩
    have hcurrent := get?_current_of_mem hvisited hpath hother
    rw [hget] at hcurrent
    cases hcurrent
  | case6 visited current _ _ hget token _ target _ _ ih =>
    have hnext : ∀ path ∈ visited ++ [current], OrderedMap.get? memo path = none := by
      intro path hpath
      rw [Option.eq_none_iff_forall_ne_some]
      intro found hfound
      rw [get?_current_of_mem hvisited hpath hfound] at hget
      cases hget
    have hrest := ih hnext
    cases hwalk : walk tree memo failed (visited ++ [current]) target with
    | terminal found passed =>
      rw [hwalk] at hrest
      exact ⟨(List.prefix_append _ _).trans hrest.1, hrest.2⟩
    | missing passed path | cycle passed path | failed passed => trivial

theorem get?_remember (pass : Pass) (found : Terminal) (passed : List TokenPath)
    (path : TokenPath) : OrderedMap.get? (pass.remember found passed).memo path =
      if path ∈ passed then some found else OrderedMap.get? pass.memo path := by
  unfold Pass.remember
  simp only
  induction passed generalizing pass with
  | nil => simp
  | cons first rest ih =>
    have hrest := ih { pass with memo := OrderedMap.set pass.memo first found }
    rw [List.foldl_cons]
    refine hrest.trans ?_
    rw [OrderedMap.get?_set]
    by_cases hmem : path ∈ rest
    · simp [hmem]
    · by_cases hfirst : first = path
      · simp [hfirst]
      · simp [hmem, hfirst, Ne.symm hfirst]

/-- Resolving a path forgets nothing, and remembers the terminal that it finds. -/
theorem Pass.keeps_resolvePath (pass : Pass) (tree : TokenTree) (mode : String)
    (start : TokenPath) :
    Memo.Keeps pass.memo (pass.resolvePath tree mode start).2.memo ∧
      ∀ found, (pass.resolvePath tree mode start).1 = .ok found →
        OrderedMap.get? (pass.resolvePath tree mode start).2.memo start = some found := by
  unfold Pass.resolvePath
  cases hget : OrderedMap.get? pass.memo start with
  | some found =>
    refine ⟨Memo.Keeps.refl _, fun other hother => ?_⟩
    rw [← Except.ok.inj hother]
    exact hget
  | none =>
    have hfills : (walk tree pass.memo pass.failed [] start).Fills pass.memo [] start :=
      walk_fills fun _ hmem => absurd hmem List.not_mem_nil
    simp only
    cases hwalk : walk tree pass.memo pass.failed [] start with
    | terminal found passed =>
      rw [hwalk] at hfills
      obtain ⟨hstart, hfound⟩ := hfills
      refine ⟨fun path terminal hpath => ?_, fun other hother => ?_⟩
      · rw [get?_remember]
        split
        · rename_i hmem
          rw [hfound path hmem terminal hpath]
        · exact hpath
      · rw [get?_remember, if_pos (hstart.subset List.mem_cons_self), ← Except.ok.inj hother]
    | missing passed path => exact ⟨Memo.Keeps.refl _, nofun⟩
    | cycle passed path => exact ⟨Memo.Keeps.refl _, nofun⟩
    | failed passed => exact ⟨Memo.Keeps.refl _, nofun⟩

/-- A path whose terminal is remembered is a hit. -/
theorem Pass.resolvePath_of_get? {found : Terminal}
    (h : OrderedMap.get? pass.memo start = some found) (tree : TokenTree) (mode : String) :
    pass.resolvePath tree mode start = (.ok found, { pass with hits := pass.hits + 1 }) := by
  unfold Pass.resolvePath
  rw [h]

/-! ## All paths -/

theorem keeps_resolveEntries (collect : Bool) (tree : TokenTree) (mode : String) (pass : Pass)
    (entries : List (TokenPath × Token)) :
    Memo.Keeps pass.memo (resolveEntries collect tree mode pass entries).pass.memo := by
  fun_induction resolveEntries collect tree mode pass entries with
  | case1 pass => exact Memo.Keeps.refl _
  | case2 pass path token rest found after hpath more ih =>
    have hfirst := (pass.keeps_resolvePath tree mode path).1
    rw [hpath] at hfirst
    exact hfirst.trans ih
  | case3 pass path token rest after hpath ih =>
    have hfirst := (pass.keeps_resolvePath tree mode path).1
    rw [hpath] at hfirst
    exact hfirst.trans ih
  | case4 pass path token rest e after hpath hcollect more ih =>
    have hfirst := (pass.keeps_resolvePath tree mode path).1
    rw [hpath] at hfirst
    exact hfirst.trans ih
  | case5 pass path token rest e after hpath hcollect =>
    have hfirst := (pass.keeps_resolvePath tree mode path).1
    rwa [hpath] at hfirst

/-- A pass has gone through without an error. -/
structure Outcome.Clean (outcome : Outcome) : Prop where
  errors : outcome.errors = []
  stopped : outcome.stopped = none

/-- A pass over the entries of one that went through, which remembers all that this one did, hits
every path, and yields the same. -/
theorem Outcome.Clean.again {collect : Bool}
    (h : (resolveEntries collect tree mode pass entries).Clean) (hfailed : pass.failed = [])
    {known : Pass}
    (hknown : Memo.Keeps (resolveEntries collect tree mode pass entries).pass.memo known.memo)
    (collect' : Bool) :
    resolveEntries collect' tree mode known entries =
      ⟨(resolveEntries collect tree mode pass entries).resolved, [], none,
        { known with hits := known.hits +
          (resolveEntries collect tree mode pass entries).resolved.length }⟩ := by
  induction entries generalizing pass known with
  | nil => rfl
  | cons entry rest ih =>
    obtain ⟨path, token⟩ := entry
    have hreported : (pass.resolvePath tree mode path).1 ≠ .error .reported :=
      Pass.resolvePath_ne_reported hfailed path
    have hopen (found : Terminal) (hok : (pass.resolvePath tree mode path).1 = .ok found) :
        (pass.resolvePath tree mode path).2.failed = [] :=
      (Pass.failed_resolvePath_of_ok hok).trans hfailed
    have hfound := (pass.keeps_resolvePath tree mode path).2
    rw [resolveEntries] at h hknown ⊢
    rw [resolveEntries]
    generalize pass.resolvePath tree mode path = first at h hknown hreported hopen hfound ⊢
    obtain ⟨result, after⟩ := first
    cases result with
    | error why =>
      cases why with
      | reported => exact absurd rfl hreported
      | error e =>
        cases collect with
        | true => exact absurd h.errors (List.cons_ne_nil _ _)
        | false => exact absurd h.stopped (Option.some_ne_none _)
    | ok found =>
      simp only at hknown ⊢
      have hrest : (resolveEntries collect tree mode after rest).Clean := ⟨h.errors, h.stopped⟩
      have hheld : OrderedMap.get? known.memo path = some found :=
        hknown path found (keeps_resolveEntries collect tree mode after rest path found
          (hfound found rfl))
      have hagain : resolveEntries collect' tree mode { known with hits := known.hits + 1 } rest =
          ⟨(resolveEntries collect tree mode after rest).resolved, [], none,
            { known with hits := known.hits + 1 +
              (resolveEntries collect tree mode after rest).resolved.length }⟩ :=
        ih hrest (hopen found rfl) hknown
      rw [Pass.resolvePath_of_get? hheld]
      simp only
      rw [hagain, List.length_cons, Nat.add_assoc, Nat.add_comm 1]

end Resolution

namespace ResolutionCache

variable {cache known : ResolutionCache} {tree : TokenTree} {mode : String} {collect : Bool}

/-- A call that breaks down is not clean. -/
theorem isRenderable_of_clean (h : (cache.resolve collect tree mode).1.Clean) :
    tree.isRenderable = true :=
  isRenderable_of_stopped_eq_none h.stopped

/-- What is held for a mode after its tree is resolved; the other modes keep what is held for them. -/
theorem get?_modes_resolve (h : tree.isRenderable = true) (cache : ResolutionCache)
    (collect : Bool) (mode other : String) :
    OrderedMap.get? (cache.resolve collect tree mode).2.modes other =
      if mode = other then
        some ⟨TokenTree.digestOf tree.text, (cache.resolve collect tree mode).1.pass.memo⟩
      else OrderedMap.get? cache.modes other := by
  rw [resolve_of_isRenderable h]
  unfold passOver absorb bind
  simp only [hold_of_isRenderable h, OrderedMap.get?_set]
  split <;> rfl

/-- Where a tree has been resolved without an error, resolving it again only counts hits: one for
every path. -/
theorem resolve_again (h : (cache.resolve collect tree mode).1.Clean)
    (hheld : OrderedMap.get? known.modes mode =
      some ⟨TokenTree.digestOf tree.text, (cache.resolve collect tree mode).1.pass.memo⟩)
    (collect' : Bool) :
    (known.resolve collect' tree mode).1.resolved = (cache.resolve collect tree mode).1.resolved ∧
      (known.resolve collect' tree mode).1.Clean ∧
      (known.resolve collect' tree mode).2 = { known with
        hits := known.hits + (cache.resolve collect tree mode).1.resolved.length } := by
  have hrenderable := isRenderable_of_clean h
  have hprint := TokenTree.fingerprint_of_isRenderable hrenderable
  rw [resolve_of_isRenderable hrenderable] at h hheld ⊢
  rw [resolve_of_isRenderable hrenderable]
  have hmemo : known.memoFor mode tree = (cache.passOver collect tree mode).1.pass.memo := by
    unfold memoFor
    rw [hheld, hprint]
    simp only [if_true]
  have hfresh : known.isStale mode tree = false := by
    unfold isStale
    rw [hheld, hprint]
    exact bne_self_eq_false _
  have hkeeps : Resolution.Memo.Keeps (cache.passOver collect tree mode).1.pass.memo
      (known.startPass mode tree).memo := hmemo ▸ Resolution.Memo.Keeps.refl _
  have houtcome : (known.passOver collect' tree mode).1 =
      ⟨(cache.passOver collect tree mode).1.resolved, [], none,
        { known.startPass mode tree with
          hits := 0 + (cache.passOver collect tree mode).1.resolved.length }⟩ :=
    h.again rfl hkeeps collect'
  have hset (held : ResolutionCache) (hmodes : held.modes = known.modes) :
      held.hold mode tree (cache.passOver collect tree mode).1.pass.memo = known.modes := by
    rw [hold_of_isRenderable hrenderable, hmodes]
    exact OrderedMap.set_of_get? hheld
  have hafter : (known.passOver collect' tree mode).2 =
      (known.bind mode tree).absorb mode tree (known.passOver collect' tree mode).1.pass := rfl
  have hbound : (known.bind mode tree).modes = known.modes := by
    unfold bind
    rw [hmemo]
    exact hset known rfl
  refine ⟨by rw [houtcome], by rw [houtcome]; exact ⟨rfl, rfl⟩, ?_⟩
  rw [hafter, houtcome]
  unfold absorb
  rw [show (known.startPass mode tree).memo = _ from hmemo, hset _ hbound]
  simp only [bind, startPass, hfresh, Nat.zero_add, Nat.add_zero, Bool.false_eq_true, if_false]

end ResolutionCache

end DesignTokens
