import DesignTokens.Build.Report
import DesignTokens.Proofs.Resolution.Reports
import DesignTokens.Proofs.Resolution.Yields
import Mathlib.Algebra.BigOperators.Group.List.Basic
import Mathlib.Data.Set.Card
/-!
# How much of a tree fails

A gathering pass leaves out one entry for every path that leads to no literal, but reports one error
only for every root cause.  So the entries that are left out are as many as such paths, and the
errors about cycles as many as cycles; and where something is reported, something is left out.
-/

set_option autoImplicit false

namespace DesignTokens

namespace Resolution

/-- The paths of a cycle of references: those that the references from one of them come to, among
which it is itself. -/
def IsCycle (tree : TokenTree) (members : Finset TokenPath) : Prop :=
  ∃ path, Relation.TransGen (Follows tree) path path ∧
    ∀ member, member ∈ members ↔ Relation.TransGen (Follows tree) path member

/-- Those of some paths whose references lead to no literal. -/
def lost (tree : TokenTree) (paths : List TokenPath) : Set TokenPath :=
  {path | path ∈ paths ∧ ∀ terminal, ¬Leads tree path terminal}

/-- Whether a cause is a cycle. -/
def Cause.isCycle : Cause → Bool
  | .missing _ _ _ => false
  | .cycle _ _ => true

variable {tree : TokenTree} {mode : String} {entries : List (TokenPath × Token)}
  {resolved : ResolvedTree} {errors : List BuildError} {causes : List Cause}

theorem isCause_cycle_iff {members : Finset TokenPath} :
    IsCause tree mode (.cycle mode members) ↔ IsCycle tree members := by
  constructor
  · rintro (_ | ⟨hcycle, hmembers⟩)
    exact ⟨_, hcycle, hmembers⟩
  · rintro ⟨path, hcycle, hmembers⟩
    exact .cycle hcycle hmembers

theorem IsCause.mode_eq {other : String} {members : Finset TokenPath}
    (h : IsCause tree mode (.cycle other members)) : other = mode := by
  cases h
  rfl

/-! ## Paths that are left out -/

theorem mem_lost_iff {path : TokenPath} {paths : List TokenPath} :
    path ∈ lost tree paths ↔ path ∈ paths ∧ ∀ terminal, ¬Leads tree path terminal :=
  Iff.rfl

theorem lost_cons_of_leads {path : TokenPath} {paths : List TokenPath} {terminal : Terminal}
    (h : Leads tree path terminal) : lost tree (path :: paths) = lost tree paths := by
  ext other
  rw [mem_lost_iff, mem_lost_iff, List.mem_cons]
  constructor
  · rintro ⟨rfl | hmem, hnot⟩
    · exact absurd h (hnot terminal)
    · exact ⟨hmem, hnot⟩
  · rintro ⟨hmem, hnot⟩
    exact ⟨.inr hmem, hnot⟩

theorem lost_cons_of_not_leads {path : TokenPath} {paths : List TokenPath}
    (h : ∀ terminal, ¬Leads tree path terminal) :
    lost tree (path :: paths) = insert path (lost tree paths) := by
  ext other
  rw [Set.mem_insert_iff, mem_lost_iff, mem_lost_iff, List.mem_cons]
  constructor
  · rintro ⟨rfl | hmem, hnot⟩
    · exact .inl rfl
    · exact .inr ⟨hmem, hnot⟩
  · rintro (rfl | ⟨hmem, hnot⟩)
    · exact ⟨.inl rfl, h⟩
    · exact ⟨.inr hmem, hnot⟩

/-- The entries that are resolved and the paths that are lost are all there are. -/
theorem Yields.encard_lost (h : Yields tree entries resolved)
    (hkeys : (OrderedMap.keys entries).Nodup) :
    (lost tree (OrderedMap.keys entries)).encard + resolved.length = entries.length := by
  induction h with
  | nil => simp [lost, OrderedMap.keys]
  | found hleads _ ih =>
    rw [OrderedMap.keys, List.map_cons] at hkeys ⊢
    rw [lost_cons_of_leads hleads, List.length_cons, List.length_cons, Nat.cast_succ,
      Nat.cast_succ, ← add_assoc]
    exact congrArg (· + 1) (ih (List.nodup_cons.mp hkeys).2)
  | leftOut hnot _ ih =>
    rw [OrderedMap.keys, List.map_cons] at hkeys ⊢
    obtain ⟨hnew, hrest⟩ := List.nodup_cons.mp hkeys
    rw [lost_cons_of_not_leads hnot, Set.encard_insert_of_notMem fun hmem => hnew hmem.1,
      List.length_cons, Nat.cast_succ, add_right_comm]
    exact congrArg (· + 1) (ih hrest)

/-! ## Cycles that are reported -/

/-- Different causes that are cycles are so many different cycles, since all are of one mode. -/
theorem encard_cycles_of_causes (hnodup : causes.Nodup)
    (hmode : ∀ cause ∈ causes, IsCause tree mode cause) :
    {members | Cause.cycle mode members ∈ causes}.encard = causes.countP Cause.isCycle := by
  induction causes with
  | nil => simp
  | cons cause rest ih =>
    obtain ⟨hnew, hrest⟩ := List.nodup_cons.mp hnodup
    have hcount := ih hrest fun other hother => hmode other (List.mem_cons_of_mem _ hother)
    cases cause with
    | missing other referencing missing =>
      simpa [Cause.isCycle] using hcount
    | cycle other members =>
      have hother : other = mode := (hmode _ List.mem_cons_self).mode_eq
      subst hother
      have hset : {members' | Cause.cycle other members' ∈ Cause.cycle other members :: rest} =
          insert members {members' | Cause.cycle other members' ∈ rest} := by
        ext members'
        simp
      have hmembers : members ∉ {members' | Cause.cycle other members' ∈ rest} := hnew
      rw [hset, Set.encard_insert_of_notMem hmembers, hcount, List.countP_cons_of_pos rfl,
        Nat.cast_succ]

/-- An error is a cycle exactly if its cause is one. -/
theorem isCycle_eq (e : BuildError) : Report.isCycle e = (causeOf? e).any Cause.isCycle := by
  cases e <;> rfl

theorem isResolutionError_eq (e : BuildError) :
    Report.isResolutionError e = (causeOf? e).isSome := by
  cases e <;> rfl

/-- Errors report as many cycles as there are among their causes. -/
theorem countP_isCycle (h : errors.map causeOf? = causes.map some) :
    errors.countP Report.isCycle = causes.countP Cause.isCycle := by
  calc errors.countP Report.isCycle
      = (errors.map causeOf?).countP (Option.any Cause.isCycle) := by
        rw [List.countP_map]
        exact List.countP_congr fun e _ => by rw [isCycle_eq]; rfl
    _ = (causes.map some).countP (Option.any Cause.isCycle) := by rw [h]
    _ = causes.countP Cause.isCycle := by
        rw [List.countP_map]
        rfl

end Resolution

/-! ## Whole trees -/

namespace ResolutionCache

open Resolution

variable {cache : ResolutionCache} {tree : TokenTree} {mode : String}

/-- Resolving a tree leaves out as many entries as there are lost paths. -/
theorem encard_lost_resolve (hrenderable : tree.isRenderable = true)
    (htree : (OrderedMap.keys tree).Nodup)
    (hmemo : Memo.Sound tree (cache.memoFor mode tree)) :
    (lost tree (OrderedMap.keys tree)).encard =
      (tree.length - (cache.resolve true tree mode).1.resolved.length : Nat) := by
  have hsum : (lost tree (OrderedMap.keys tree)).encard +
      (cache.resolve true tree mode).1.resolved.length = tree.length :=
    (yields_resolve_true hrenderable hmemo).encard_lost htree
  have hfinite : (lost tree (OrderedMap.keys tree)).encard ≠ ⊤ := by
    intro htop
    rw [htop, top_add] at hsum
    exact ENat.top_ne_natCast _ hsum
  obtain ⟨count, hcount⟩ := ENat.ne_top_iff_exists.mp hfinite
  rw [← hcount, ← Nat.cast_add, Nat.cast_inj] at hsum
  rw [← hcount, ← hsum, Nat.add_sub_cancel]

/-- What is reported are the causes that there are, each of them once. -/
theorem exists_causes_resolve (hrenderable : tree.isRenderable = true)
    (hmemo : Memo.Sound tree (cache.memoFor mode tree)) :
    ∃ causes : List Cause,
      (cache.resolve true tree mode).1.errors.map causeOf? = causes.map some ∧ causes.Nodup ∧
        ∀ cause, cause ∈ causes ↔ IsCause tree mode cause := by
  obtain ⟨causes, hmap, horder⟩ := (reports_resolve hrenderable hmemo).exists_metInOrder
  refine ⟨causes, hmap, horder.nodup, fun cause => ?_⟩
  rw [horder.mem_iff]
  refine ⟨fun h => h.1, fun hcause => ⟨hcause, hcause.exists_leadsInto, ?_⟩⟩
  rintro ⟨path, hpath, _⟩
  exact absurd hpath List.not_mem_nil

/-- Resolving a tree reports as many cycles as the tree has. -/
theorem encard_cycles_resolve (hrenderable : tree.isRenderable = true)
    (hmemo : Memo.Sound tree (cache.memoFor mode tree)) :
    {members | IsCycle tree members}.encard =
      (cache.resolve true tree mode).1.errors.countP Report.isCycle := by
  obtain ⟨causes, hmap, hnodup, hmem⟩ := exists_causes_resolve hrenderable hmemo
  rw [countP_isCycle hmap, ← encard_cycles_of_causes hnodup fun cause => (hmem cause).mp]
  simp only [hmem, isCause_cycle_iff]

/-- All that resolving a tree reports are failed resolutions. -/
theorem isResolutionError_of_mem_errors (hmemo : Memo.Sound tree (cache.memoFor mode tree))
    {e : BuildError} (he : e ∈ (cache.resolve true tree mode).1.errors) :
    Report.isResolutionError e := by
  obtain ⟨causes, hmap, _, _⟩ := exists_causes_resolve (isRenderable_of_mem_errors he) hmemo
  have hcause := List.mem_map_of_mem (f := causeOf?) he
  rw [hmap] at hcause
  obtain ⟨cause, _, hsome⟩ := List.mem_map.mp hcause
  rw [isResolutionError_eq, ← hsome]
  rfl

/-- Where something is reported, some path is lost. -/
theorem nonempty_lost_of_mem_errors (hmemo : Memo.Sound tree (cache.memoFor mode tree))
    {e : BuildError} (he : e ∈ (cache.resolve true tree mode).1.errors) :
    (lost tree (OrderedMap.keys tree)).Nonempty := by
  obtain ⟨causes, hmap, _, hmem⟩ := exists_causes_resolve (isRenderable_of_mem_errors he) hmemo
  have hcause := List.mem_map_of_mem (f := causeOf?) he
  rw [hmap] at hcause
  obtain ⟨cause, hcause, _⟩ := List.mem_map.mp hcause
  rw [hmem] at hcause
  obtain ⟨path, hpath, hinto⟩ := hcause.exists_leadsInto
  exact ⟨path, hpath, fun terminal => hcause.not_leads hinto⟩

end ResolutionCache

end DesignTokens
