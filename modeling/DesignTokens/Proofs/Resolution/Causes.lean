import DesignTokens.Proofs.Resolution.Trail
import Mathlib.Data.Finset.Insert
/-!
# Root causes

A path fails for one of two reasons: its references come to a path without a token, or they come to
a cycle.  The cause is the last reference before the missing path, or the cycle as a whole, so that
all paths that lead there have it in common.  Every path has one cause at most.
-/

set_option autoImplicit false

namespace DesignTokens.Resolution

/-- What makes paths fail. -/
inductive Cause where
  /-- A reference to a path without a token. -/
  | missing (mode : String) (referencing missing : TokenPath)
  /-- References that go round. -/
  | cycle (mode : String) (members : Finset TokenPath)
  deriving DecidableEq

/-- The paths at which a cause stands. -/
def Cause.paths : Cause → Finset TokenPath
  | .missing _ referencing _ => {referencing}
  | .cycle _ members => members

@[simp] theorem Cause.mem_paths_missing {mode : String} {referencing missing place : TokenPath} :
    place ∈ (Cause.missing mode referencing missing).paths ↔ place = referencing :=
  Finset.mem_singleton

@[simp] theorem Cause.mem_paths_cycle {mode : String} {members : Finset TokenPath}
    {place : TokenPath} : place ∈ (Cause.cycle mode members).paths ↔ place ∈ members :=
  Iff.rfl

/-- The causes of failure that a tree has. -/
inductive IsCause (tree : TokenTree) (mode : String) : Cause → Prop
  | missing {referencing missing : TokenPath} (hfollows : Follows tree referencing missing)
      (habsent : missing ∉ OrderedMap.keys tree) :
      IsCause tree mode (.missing mode referencing missing)
  | cycle {path : TokenPath} {members : Finset TokenPath}
      (hcycle : Relation.TransGen (Follows tree) path path)
      (hmembers : ∀ member, member ∈ members ↔ Relation.TransGen (Follows tree) path member) :
      IsCause tree mode (.cycle mode members)

/-- The references from a path come to where a cause stands. -/
def LeadsInto (tree : TokenTree) (path : TokenPath) (cause : Cause) : Prop :=
  ∃ place ∈ cause.paths, Relation.ReflTransGen (Follows tree) path place

variable {tree : TokenTree} {mode : String} {path target : TokenPath} {terminal : Terminal}
  {cause other : Cause}

theorem LeadsInto.of_reflTransGen (h : LeadsInto tree target cause)
    (hchain : Relation.ReflTransGen (Follows tree) path target) : LeadsInto tree path cause := by
  obtain ⟨place, hplace, hrest⟩ := h
  exact ⟨place, hplace, hchain.trans hrest⟩

/-! ## Where causes stand -/

/-- The references from a path of a cycle come back to it. -/
theorem transGen_self_of_cycle {member : TokenPath}
    (hcycle : Relation.TransGen (Follows tree) path path)
    (h : Relation.TransGen (Follows tree) path member) :
    Relation.TransGen (Follows tree) member member :=
  (transGen_iff_of_cycle hcycle h.to_reflTransGen member).mp h

/-- A reference to a path without a token stands on no cycle. -/
theorem Follows.not_transGen_self (h : Follows tree path target)
    (habsent : target ∉ OrderedMap.keys tree) : ¬ Relation.TransGen (Follows tree) path path :=
  fun hround => ((loops_of_transGen hround).of_reflTransGen (.single h)).not_breaksOff
    (breaksOff_of_not_mem_keys habsent)

/-- A cause stands at some path. -/
theorem IsCause.exists_mem_paths (h : IsCause tree mode cause) : ∃ place, place ∈ cause.paths := by
  cases h with
  | @missing referencing => exact ⟨referencing, Cause.mem_paths_missing.mpr rfl⟩
  | cycle hcycle hmembers => exact ⟨_, (hmembers _).mpr hcycle⟩

/-- A cause stands at paths that have a reference. -/
theorem IsCause.exists_follows (h : IsCause tree mode cause) {place : TokenPath}
    (hplace : place ∈ cause.paths) : ∃ next, Follows tree place next := by
  cases h with
  | @missing referencing missing hfollows _ =>
    rw [Cause.mem_paths_missing.mp hplace]
    exact ⟨missing, hfollows⟩
  | cycle hcycle hmembers =>
    have hround := transGen_self_of_cycle hcycle ((hmembers place).mp hplace)
    obtain ⟨next, hnext, _⟩ := Relation.TransGen.head'_iff.mp hround
    exact ⟨next, hnext⟩

/-- Some path of the tree leads into a cause. -/
theorem IsCause.exists_leadsInto (h : IsCause tree mode cause) :
    ∃ path ∈ OrderedMap.keys tree, LeadsInto tree path cause := by
  obtain ⟨place, hplace⟩ := h.exists_mem_paths
  obtain ⟨next, hnext⟩ := h.exists_follows hplace
  exact ⟨place, hnext.mem_keys, place, hplace, .refl⟩

/-- A path that leads into a cause leads to no terminal. -/
theorem IsCause.not_leads (h : IsCause tree mode cause) (hleads : LeadsInto tree path cause) :
    ¬ Leads tree path terminal := by
  obtain ⟨place, hplace, hchain⟩ := hleads
  intro hterminal
  cases h with
  | @missing referencing missing hfollows habsent =>
    rw [Cause.mem_paths_missing.mp hplace] at hchain
    exact hterminal.not_breaksOff ⟨missing, hchain.tail hfollows, habsent⟩
  | cycle hcycle hmembers =>
    exact hterminal.not_loops
      ⟨place, hchain, transGen_self_of_cycle hcycle ((hmembers place).mp hplace)⟩

/-! ## No path has two causes -/

/-- From where a cause stands, the references lead to no other path of the tree than those where it
stands. -/
theorem IsCause.mem_paths_of_reflTransGen (h : IsCause tree mode cause) {place later : TokenPath}
    (hplace : place ∈ cause.paths) (hlater : later ∈ OrderedMap.keys tree)
    (hchain : Relation.ReflTransGen (Follows tree) place later) : later ∈ cause.paths := by
  cases h with
  | @missing referencing missing hfollows habsent =>
    rw [Cause.mem_paths_missing.mp hplace] at hchain
    rcases hchain.cases_head with rfl | ⟨next, hnext, hrest⟩
    · exact Cause.mem_paths_missing.mpr rfl
    · rw [← hfollows.unique hnext] at hrest
      rcases hrest.cases_head with rfl | ⟨other, hother, _⟩
      · exact absurd hlater habsent
      · exact absurd hother.mem_keys habsent
  | cycle hcycle hmembers =>
    exact (hmembers later).mpr (Relation.TransGen.trans_left ((hmembers place).mp hplace) hchain)

/-- Causes that stand at one path are the same. -/
theorem IsCause.eq_of_mem_paths (h : IsCause tree mode cause) (h' : IsCause tree mode other)
    {place : TokenPath} (hplace : place ∈ cause.paths) (hother : place ∈ other.paths) :
    cause = other := by
  cases h with
  | @missing referencing missing hfollows habsent =>
    have hreferencing := Cause.mem_paths_missing.mp hplace
    cases h' with
    | @missing referencing' missing' hfollows' _ =>
      have heq : referencing = referencing' :=
        hreferencing.symm.trans (Cause.mem_paths_missing.mp hother)
      subst heq
      rw [hfollows.unique hfollows']
    | cycle hcycle hmembers =>
      have hround := transGen_self_of_cycle hcycle ((hmembers place).mp hother)
      exact absurd (hreferencing ▸ hround) (hfollows.not_transGen_self habsent)
  | @cycle start members hcycle hmembers =>
    have hmember := (hmembers place).mp hplace
    cases h' with
    | @missing referencing missing hfollows habsent =>
      have hreferencing := Cause.mem_paths_missing.mp hother
      have hround := transGen_self_of_cycle hcycle hmember
      exact absurd (hreferencing ▸ hround) (hfollows.not_transGen_self habsent)
    | @cycle start' members' hcycle' hmembers' =>
      have hmember' := (hmembers' place).mp hother
      have heq : members = members' := by
        ext third
        rw [hmembers, hmembers', transGen_iff_of_cycle hcycle hmember.to_reflTransGen,
          transGen_iff_of_cycle hcycle' hmember'.to_reflTransGen]
      rw [heq]

/-- A path leads into one cause at most. -/
theorem IsCause.unique (h : IsCause tree mode cause) (h' : IsCause tree mode other)
    (hleads : LeadsInto tree path cause) (hother : LeadsInto tree path other) : cause = other := by
  obtain ⟨place, hplace, hchain⟩ := hleads
  obtain ⟨place', hplace', hchain'⟩ := hother
  obtain ⟨_, hnext⟩ := h.exists_follows hplace
  obtain ⟨_, hnext'⟩ := h'.exists_follows hplace'
  rcases hchain.total_of_right_unique (rightUnique_follows tree) hchain' with hforth | hback
  · exact h.eq_of_mem_paths h' (h.mem_paths_of_reflTransGen hplace hnext'.mem_keys hforth) hplace'
  · exact h.eq_of_mem_paths h' hplace (h'.mem_paths_of_reflTransGen hplace' hnext.mem_keys hback)

end DesignTokens.Resolution
