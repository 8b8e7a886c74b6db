import DesignTokens.Proofs.Resolution.Chain
import Mathlib.Data.List.Forall2
/-!
# Passes over a tree

A pass that starts from true memories ends with true memories, whether it fails on the way or not.
Its result does not depend on what it remembered at the start.  A pass that stops at the first
error and one that gathers all errors agree up to that error.
-/

set_option autoImplicit false

namespace DesignTokens.Resolution

variable {tree : TokenTree} {mode : String} {pass other : Pass} {start : TokenPath}
  {entries : List (TokenPath × Token)}

/-- What a pass knows is true of its tree. -/
structure Pass.Sound (tree : TokenTree) (pass : Pass) : Prop where
  memo : Memo.Sound tree pass.memo
  fails : Fails tree pass.failed

/-- Two passes know true things and the same failures; they may remember different terminals. -/
structure Pass.Alike (tree : TokenTree) (pass other : Pass) : Prop where
  left : pass.Sound tree
  right : other.Sound tree
  failed : pass.failed = other.failed

/-- Remembering nothing and knowing no failure is true of every tree. -/
theorem Pass.sound_of_memo {memo : Memo} (h : Memo.Sound tree memo) (hits misses : Nat) :
    Pass.Sound tree ⟨memo, [], hits, misses⟩ :=
  ⟨h, fun _ hmem => absurd hmem List.not_mem_nil⟩

theorem Memo.sound_nil (tree : TokenTree) : Memo.Sound tree [] :=
  fun _ _ h => by simp at h

/-! ## One path -/

/-- Remembering a terminal for paths that lead to it keeps the memories true. -/
theorem Memo.Sound.set_all {memo : Memo} {found : Terminal} {passed : List TokenPath}
    (h : Memo.Sound tree memo) (hpassed : ∀ path ∈ passed, Leads tree path found) :
    Memo.Sound tree (passed.foldl (fun memo path => OrderedMap.set memo path found) memo) := by
  induction passed generalizing memo with
  | nil => exact h
  | cons path rest ih =>
    refine ih ?_ fun p hmem => hpassed p (List.mem_cons_of_mem _ hmem)
    intro p terminal hget
    rw [OrderedMap.get?_set] at hget
    by_cases heq : path = p
    · rw [if_pos heq, Option.some.injEq] at hget
      rw [← hget, ← heq]
      exact hpassed path List.mem_cons_self
    · rw [if_neg heq] at hget
      exact h p terminal hget

theorem Pass.Sound.remember {found : Terminal} {passed : List TokenPath} (h : pass.Sound tree)
    (hpassed : ∀ path ∈ passed, Leads tree path found) : (pass.remember found passed).Sound tree :=
  ⟨h.memo.set_all hpassed, h.fails⟩

theorem Pass.Sound.fail {passed : List TokenPath} (h : pass.Sound tree)
    (hpassed : Fails tree passed) : (pass.fail passed).Sound tree := by
  refine ⟨h.memo, ?_⟩
  intro path hmem
  cases List.mem_append.mp hmem with
  | inl hold => exact h.fails path hold
  | inr hnew => exact hpassed path (List.mem_filter.mp hnew).1

/-- The number of uses has no part in what a pass knows. -/
theorem Pass.Sound.count (h : pass.Sound tree) (hits misses : Nat) :
    Pass.Sound tree { pass with hits := hits, misses := misses } :=
  ⟨h.memo, h.fails⟩

/-- A path that leads somewhere is resolved to its terminal, and no failure is noted. -/
theorem Pass.Sound.resolvePath_of_leads {terminal : Terminal} (h : pass.Sound tree)
    (mode : String)
    (hleads : Leads tree start terminal) :
    (pass.resolvePath tree mode start).1 = .ok terminal ∧
      (pass.resolvePath tree mode start).2.Sound tree ∧
      (pass.resolvePath tree mode start).2.failed = pass.failed := by
  unfold Pass.resolvePath
  cases hget : OrderedMap.get? pass.memo start with
  | some found =>
    have hfound : found = terminal := (h.memo start found hget).unique hleads
    exact ⟨by rw [hfound], h.count _ _, rfl⟩
  | none =>
    obtain ⟨passed, hwalk, hpassed⟩ := exists_walk_eq_terminal h.memo h.fails hleads
    simp only [hwalk]
    exact ⟨trivial, (h.count _ _).remember hpassed, rfl⟩

/-- The reason why a walk gives no terminal, and the paths that the pass then knows to fail. -/
def WalkEnd.failure? (mode : String) : WalkEnd → Option (Unresolvable × List TokenPath)
  | .terminal _ _ => none
  | .missing passed path =>
    some (.error (.unresolved ⟨mode, passed.getLastD path, path, passed ++ [path]⟩), passed)
  | .cycle passed path =>
    some (.error (.cyclic ⟨mode, passed.dropWhile (· ≠ path) ++ [path]⟩), passed)
  | .failed passed => some (.reported, passed)

/-- A path that leads nowhere is reported as a walk without memories sees it. -/
theorem Pass.Sound.resolvePath_of_not_leads (h : pass.Sound tree) (mode : String)
    (hnot : ∀ terminal, ¬ Leads tree start terminal) :
    ∃ why passed, (walk tree [] pass.failed [] start).failure? mode = some (why, passed) ∧
      Fails tree passed ∧
      pass.resolvePath tree mode start =
        (.error why, { pass with misses := pass.misses + 1 }.fail passed) := by
  have hsound := walk_sound (Memo.sound_nil tree) h.fails (passed_nil tree start)
  unfold Pass.resolvePath
  cases hget : OrderedMap.get? pass.memo start with
  | some found => exact absurd (h.memo start found hget) (hnot found)
  | none =>
    simp only [walk_eq_walk_nil pass.failed [] h.memo hnot]
    cases hwalk : walk tree [] pass.failed [] start with
    | terminal found passed =>
      rw [hwalk] at hsound
      exact absurd hsound.1 (hnot found)
    | missing passed path =>
      rw [hwalk] at hsound
      exact ⟨_, passed, rfl, hsound.2, rfl⟩
    | cycle passed path =>
      rw [hwalk] at hsound
      exact ⟨_, passed, rfl, hsound.2, rfl⟩
    | failed passed =>
      rw [hwalk] at hsound
      exact ⟨_, passed, rfl, hsound.2, rfl⟩

/-- A pass that knows no failure reports every path that leads nowhere by an error of its own. -/
theorem Pass.Sound.resolvePath_of_not_leads_nil (h : pass.Sound tree) (mode : String)
    (hfailed : pass.failed = [])
    (hnot : ∀ terminal, ¬ Leads tree start terminal) :
    ∃ e after, pass.resolvePath tree mode start = (.error (.error e), after) := by
  obtain ⟨why, passed, hwalk, _, heq⟩ := h.resolvePath_of_not_leads mode hnot
  rw [hfailed] at hwalk
  cases why with
  | error e => exact ⟨e, _, heq⟩
  | reported =>
    cases hend : walk tree [] [] [] start with
    | failed failing => exact absurd hend (walk_ne_failed failing)
    | terminal found path => simp [hend, WalkEnd.failure?] at hwalk
    | missing path other => simp [hend, WalkEnd.failure?] at hwalk
    | cycle path other => simp [hend, WalkEnd.failure?] at hwalk

/-- Resolving a path keeps what a pass knows true. -/
theorem Pass.Sound.after_resolvePath (h : pass.Sound tree) (mode : String) (start : TokenPath) :
    (pass.resolvePath tree mode start).2.Sound tree := by
  by_cases hleads : ∃ terminal, Leads tree start terminal
  · obtain ⟨terminal, hterminal⟩ := hleads
    exact (h.resolvePath_of_leads mode hterminal).2.1
  · obtain ⟨why, passed, _, hfails, heq⟩ :=
      h.resolvePath_of_not_leads mode (not_exists.mp hleads)
    rw [heq]
    exact (h.count _ _).fail hfails

/-- A resolved path leads to the terminal that was found. -/
theorem Pass.Sound.leads_of_resolvePath {found : Terminal} (h : pass.Sound tree)
    (hfound : (pass.resolvePath tree mode start).1 = .ok found) : Leads tree start found := by
  by_cases hleads : ∃ terminal, Leads tree start terminal
  · obtain ⟨terminal, hterminal⟩ := hleads
    rw [(h.resolvePath_of_leads mode hterminal).1, Except.ok.injEq] at hfound
    exact hfound ▸ hterminal
  · obtain ⟨why, passed, _, _, heq⟩ :=
      h.resolvePath_of_not_leads mode (not_exists.mp hleads)
    rw [heq] at hfound
    cases hfound

/-- Passes that know the same failures say the same of a path, and know the same failures after. -/
theorem Pass.Alike.of_resolvePath (h : Pass.Alike tree pass other) (mode : String)
    (start : TokenPath) :
    (pass.resolvePath tree mode start).1 = (other.resolvePath tree mode start).1 ∧
      Pass.Alike tree (pass.resolvePath tree mode start).2
        (other.resolvePath tree mode start).2 := by
  by_cases hleads : ∃ terminal, Leads tree start terminal
  · obtain ⟨terminal, hterminal⟩ := hleads
    obtain ⟨hleft, hleftSound, hleftFailed⟩ :=
      h.left.resolvePath_of_leads mode hterminal
    obtain ⟨hright, hrightSound, hrightFailed⟩ :=
      h.right.resolvePath_of_leads mode hterminal
    refine ⟨hleft.trans hright.symm, hleftSound, hrightSound, ?_⟩
    rw [hleftFailed, hrightFailed, h.failed]
  · have hnot := not_exists.mp hleads
    obtain ⟨why, passed, hwalk, _, hleft⟩ := h.left.resolvePath_of_not_leads mode hnot
    obtain ⟨why', passed', hwalk', _, hright⟩ :=
      h.right.resolvePath_of_not_leads mode hnot
    rw [h.failed, hwalk', Option.some.injEq, Prod.mk.injEq] at hwalk
    obtain ⟨rfl, rfl⟩ := hwalk
    refine ⟨by rw [hleft, hright], h.left.after_resolvePath mode start,
      h.right.after_resolvePath mode start, ?_⟩
    rw [hleft, hright]
    simp only [Pass.fail, h.failed]

/-! ## All paths -/

/-- A pass over entries keeps what it knows true, also when an error stops it. -/
theorem Pass.Sound.after_resolveEntries (collect : Bool) (h : pass.Sound tree) :
    (resolveEntries collect tree mode pass entries).pass.Sound tree := by
  fun_induction resolveEntries collect tree mode pass entries with
  | case1 pass => exact h
  | case2 pass path token rest found after hpath more ih =>
    refine ih ?_
    have hafter := h.after_resolvePath mode path
    rwa [hpath] at hafter
  | case3 pass path token rest after hpath ih =>
    refine ih ?_
    have hafter := h.after_resolvePath mode path
    rwa [hpath] at hafter
  | case4 pass path token rest e after hpath hcollect more ih =>
    refine ih ?_
    have hafter := h.after_resolvePath mode path
    rwa [hpath] at hafter
  | case5 pass path token rest e after hpath hcollect =>
    have hafter := h.after_resolvePath mode path
    rwa [hpath] at hafter

/-- Passes that know the same failures give the same tokens and the same errors. -/
theorem Pass.Alike.of_resolveEntries (collect : Bool) (h : Pass.Alike tree pass other)
    (mode : String) (entries : List (TokenPath × Token)) :
    (resolveEntries collect tree mode pass entries).resolved =
        (resolveEntries collect tree mode other entries).resolved ∧
      (resolveEntries collect tree mode pass entries).errors =
        (resolveEntries collect tree mode other entries).errors ∧
      (resolveEntries collect tree mode pass entries).stopped =
        (resolveEntries collect tree mode other entries).stopped := by
  induction entries generalizing pass other with
  | nil => exact ⟨rfl, rfl, rfl⟩
  | cons entry rest ih =>
    obtain ⟨path, token⟩ := entry
    obtain ⟨hfirst, hafter⟩ := h.of_resolvePath mode path
    rw [resolveEntries, resolveEntries]
    generalize pass.resolvePath tree mode path = left at hfirst hafter ⊢
    generalize other.resolvePath tree mode path = right at hfirst hafter ⊢
    obtain ⟨result, after⟩ := left
    obtain ⟨result', after'⟩ := right
    simp only at hfirst
    subst hfirst
    obtain ⟨hresolved, herrors, hstopped⟩ := ih hafter
    cases result with
    | ok found => exact ⟨by simp only [hresolved], herrors, hstopped⟩
    | error why =>
      cases why with
      | reported => exact ⟨hresolved, herrors, hstopped⟩
      | error e =>
        cases collect with
        | true => exact ⟨hresolved, by simp [herrors], hstopped⟩
        | false => exact ⟨rfl, rfl, rfl⟩

/-- The first error that a gathering pass finds is the one at which a strict pass stops, and
without errors the two are the same. -/
theorem stopped_eq_head?_errors (tree : TokenTree) (mode : String) (pass : Pass)
    (entries : List (TokenPath × Token)) :
    (resolveEntries false tree mode pass entries).stopped =
        (resolveEntries true tree mode pass entries).errors.head?.map Failure.error ∧
      ((resolveEntries false tree mode pass entries).stopped = none →
        resolveEntries true tree mode pass entries =
          resolveEntries false tree mode pass entries) := by
  induction entries generalizing pass with
  | nil => exact ⟨rfl, fun _ => rfl⟩
  | cons entry rest ih =>
    obtain ⟨path, token⟩ := entry
    rw [resolveEntries, resolveEntries]
    cases pass.resolvePath tree mode path with
    | mk result after =>
      obtain ⟨hhead, hsame⟩ := ih after
      cases result with
      | ok found =>
        refine ⟨hhead, fun hnone => ?_⟩
        simp only [hsame hnone]
      | error why =>
        cases why with
        | reported => exact ⟨hhead, hsame⟩
        | error e => exact ⟨rfl, fun hnone => absurd hnone (by simp)⟩

/-- A gathering pass is never stopped. -/
theorem stopped_of_collect :
    (resolveEntries true tree mode pass entries).stopped = none := by
  fun_induction resolveEntries true tree mode pass entries with
  | case1 => rfl
  | case2 pass path token rest found after _ more ih => exact ih
  | case3 pass path token rest after _ ih => exact ih
  | case4 pass path token rest e after _ _ more ih => exact ih
  | case5 pass path token rest e after _ hcollect => exact absurd rfl hcollect

/-- A token and its resolved form: the path stays, and the value is what the path leads to. -/
def ResolvesTo (tree : TokenTree) (entry : TokenPath × Token)
    (resolved : TokenPath × ResolvedToken) : Prop :=
  resolved.1 = entry.1 ∧
    ∃ found, Leads tree entry.1 found ∧ resolved.2 = resolvedToken entry.1 entry.2 found

/-- A strict pass that knows no failure and is not stopped resolves every entry, in order. -/
theorem Pass.Sound.forall₂_resolvesTo (h : pass.Sound tree) (hfailed : pass.failed = [])
    (hstopped : (resolveEntries false tree mode pass entries).stopped = none) :
    List.Forall₂ (ResolvesTo tree) entries
      (resolveEntries false tree mode pass entries).resolved := by
  induction entries generalizing pass with
  | nil => exact .nil
  | cons entry rest ih =>
    obtain ⟨path, token⟩ := entry
    rw [resolveEntries] at hstopped ⊢
    by_cases hleads : ∃ terminal, Leads tree path terminal
    · obtain ⟨terminal, hterminal⟩ := hleads
      obtain ⟨hok, hsound, hkept⟩ := h.resolvePath_of_leads mode hterminal
      generalize pass.resolvePath tree mode path = result at hok hsound hkept hstopped ⊢
      obtain ⟨found, after⟩ := result
      simp only at hok hsound hkept
      subst hok
      refine .cons ⟨rfl, terminal, hterminal, rfl⟩ (ih hsound (hkept.trans hfailed) hstopped)
    · obtain ⟨e, passed, heq⟩ :=
        h.resolvePath_of_not_leads_nil mode hfailed (not_exists.mp hleads)
      simp [heq] at hstopped

/-! ## Passes that know no failure -/

/-- A pass that knows no failure reports none that it has reported before. -/
theorem Pass.resolvePath_ne_reported (hfailed : pass.failed = []) (start : TokenPath) :
    (pass.resolvePath tree mode start).1 ≠ .error .reported := by
  unfold resolvePath
  intro hreported
  split at hreported
  · cases hreported
  · simp only at hreported
    split at hreported
    · cases hreported
    · cases hreported
    · cases hreported
    · rename_i hwalk
      rw [hfailed] at hwalk
      exact absurd hwalk (walk_ne_failed _)

/-- Where a path has a terminal, no failure is noted. -/
theorem Pass.failed_resolvePath_of_ok {start : TokenPath} {found : Terminal}
    (h : (pass.resolvePath tree mode start).1 = .ok found) :
    (pass.resolvePath tree mode start).2.failed = pass.failed := by
  unfold resolvePath at h ⊢
  split at h
  · rfl
  · simp only at h ⊢
    split at h
    · rfl
    · cases h
    · cases h
    · cases h

/-- A strict pass that knows no failure and is not stopped resolves every path, in order. -/
theorem keys_resolveEntries (hfailed : pass.failed = [])
    (hstopped : (resolveEntries false tree mode pass entries).stopped = none) :
    OrderedMap.keys (resolveEntries false tree mode pass entries).resolved =
      OrderedMap.keys entries := by
  induction entries generalizing pass with
  | nil => rfl
  | cons entry rest ih =>
    obtain ⟨path, token⟩ := entry
    have hreported : (pass.resolvePath tree mode path).1 ≠ .error .reported :=
      Pass.resolvePath_ne_reported hfailed path
    have hkept (found : Terminal) (hok : (pass.resolvePath tree mode path).1 = .ok found) :
        (pass.resolvePath tree mode path).2.failed = pass.failed :=
      Pass.failed_resolvePath_of_ok hok
    rw [resolveEntries] at hstopped ⊢
    generalize pass.resolvePath tree mode path = result at hreported hkept hstopped ⊢
    obtain ⟨outcome, after⟩ := result
    cases outcome with
    | ok found =>
      have hafter := (hkept found rfl).trans hfailed
      exact congrArg (path :: ·) (ih hafter hstopped)
    | error why =>
      cases why with
      | reported => exact absurd rfl hreported
      | error e => cases hstopped

end DesignTokens.Resolution
