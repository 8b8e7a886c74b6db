import DesignTokens.Proofs.Cascade
import DesignTokens.Proofs.Lists
/-!
# Coverage of the modes

A style sheet declares the same names for every mode, so all modes must have the same paths.  A path
that some mode has and another lacks is a gap.  Each such path is found once, in the order in which
a way through the trees first meets it, and the gap splits the modes into those that have the path
and those that lack it.
-/

set_option autoImplicit false

namespace DesignTokens.Cascade

variable {α : Type} {trees : ByMode (OrderedMap TokenPath α)} {path : TokenPath}

/-- All modes have the same paths. -/
def Covered (trees : ByMode (OrderedMap TokenPath α)) : Prop :=
  ∀ first ∈ trees, ∀ second ∈ trees, ∀ path,
    path ∈ OrderedMap.keys first.2 ↔ path ∈ OrderedMap.keys second.2

/-- Some mode has a path and some mode lacks it. -/
def IsPartial (trees : ByMode (OrderedMap TokenPath α)) (path : TokenPath) : Prop :=
  (∃ tree ∈ trees, path ∈ OrderedMap.keys tree.2) ∧ ∃ tree ∈ trees, path ∉ OrderedMap.keys tree.2

/-- All that a way through the trees meets, in mode order. -/
def metPaths (trees : ByMode (OrderedMap TokenPath α)) : List TokenPath :=
  trees.flatMap fun tree => OrderedMap.keys tree.2

/-- A gap splits the modes, each part in mode order, into those that have its path and those that
lack it; there are modes of both kinds. -/
structure Splits (trees : ByMode (OrderedMap TokenPath α)) (gap : CoverageGap) : Prop where
  all : (gap.presentIn ++ gap.missingIn).Perm (OrderedMap.keys trees)
  present_ordered : gap.presentIn.Sublist (OrderedMap.keys trees)
  missing_ordered : gap.missingIn.Sublist (OrderedMap.keys trees)
  present_ne_nil : gap.presentIn ≠ []
  missing_ne_nil : gap.missingIn ≠ []
  mem_present_iff : ∀ tree ∈ trees,
    tree.1 ∈ gap.presentIn ↔ gap.path ∈ OrderedMap.keys tree.2
  mem_missing_iff : ∀ tree ∈ trees,
    tree.1 ∈ gap.missingIn ↔ gap.path ∉ OrderedMap.keys tree.2

/-! ## One path -/

theorem mem_modesWith_iff {mode : String} : mode ∈ modesWith trees path ↔
    ∃ tree, (mode, tree) ∈ trees ∧ path ∈ OrderedMap.keys tree := by
  simp [modesWith, OrderedMap.has_iff_mem_keys]

theorem mem_modesWithout_iff {mode : String} : mode ∈ modesWithout trees path ↔
    ∃ tree, (mode, tree) ∈ trees ∧ path ∉ OrderedMap.keys tree := by
  simp [modesWithout, ← OrderedMap.has_iff_mem_keys]

/-- Every mode has a path or lacks it. -/
theorem perm_modesWith_modesWithout (trees : ByMode (OrderedMap TokenPath α)) (path : TokenPath) :
    (modesWith trees path ++ modesWithout trees path).Perm (OrderedMap.keys trees) := by
  unfold modesWith modesWithout OrderedMap.keys
  rw [← List.map_append]
  exact (List.filter_append_perm _ trees).map _

/-- What is found at a path that is met: a gap exactly if some mode lacks the path. -/
theorem gapAt?_eq_some_iff {gap : CoverageGap} : gapAt? trees path = some gap ↔
    gap = ⟨path, modesWith trees path, modesWithout trees path⟩ ∧
      ∃ tree ∈ trees, path ∉ OrderedMap.keys tree.2 := by
  have hlacking : modesWithout trees path ≠ [] ↔ ∃ tree ∈ trees, path ∉ OrderedMap.keys tree.2 := by
    constructor
    · intro hne
      obtain ⟨mode, hmode⟩ := List.exists_mem_of_ne_nil _ hne
      obtain ⟨tree, hmem, hpath⟩ := mem_modesWithout_iff.mp hmode
      exact ⟨(mode, tree), hmem, hpath⟩
    · rintro ⟨tree, hmem, hpath⟩
      exact List.ne_nil_of_mem (mem_modesWithout_iff.mpr ⟨tree.2, hmem, hpath⟩)
  rw [← hlacking]
  unfold gapAt?
  cases modesWithout trees path with
  | nil => simp
  | cons mode modes => simp [eq_comm]

/-! ## All paths -/

/-- A gap is found at a path exactly if the path is partial. -/
theorem mem_coverageGaps_iff {gap : CoverageGap} : gap ∈ coverageGaps trees ↔
    gap = ⟨gap.path, modesWith trees gap.path, modesWithout trees gap.path⟩ ∧
      IsPartial trees gap.path := by
  unfold coverageGaps
  rw [List.mem_filterMap]
  constructor
  · rintro ⟨path, hall, hgap⟩
    obtain ⟨rfl, hlacking⟩ := gapAt?_eq_some_iff.mp hgap
    exact ⟨rfl, mem_allPaths.mp hall, hlacking⟩
  · rintro ⟨heq, hhaving, hlacking⟩
    exact ⟨gap.path, mem_allPaths.mpr hhaving, gapAt?_eq_some_iff.mpr ⟨heq, hlacking⟩⟩

/-- The modes are covered exactly if no path is partial. -/
theorem covered_iff : Covered trees ↔ ∀ path, ¬ IsPartial trees path := by
  constructor
  · rintro hcovered path ⟨⟨first, hfirst, hhas⟩, second, hsecond, hlacks⟩
    exact hlacks ((hcovered first hfirst second hsecond path).mp hhas)
  · intro hnone first hfirst second hsecond path
    constructor
    · exact fun hhas => by_contra fun hlacks =>
        hnone path ⟨⟨first, hfirst, hhas⟩, second, hsecond, hlacks⟩
    · exact fun hhas => by_contra fun hlacks =>
        hnone path ⟨⟨second, hsecond, hhas⟩, first, hfirst, hlacks⟩

theorem exists_gap_iff :
    (∃ gap ∈ coverageGaps trees, gap.path = path) ↔ IsPartial trees path := by
  constructor
  · rintro ⟨gap, hgap, rfl⟩
    exact (mem_coverageGaps_iff.mp hgap).2
  · intro hpartial
    exact ⟨⟨path, modesWith trees path, modesWithout trees path⟩,
      mem_coverageGaps_iff.mpr ⟨rfl, hpartial⟩, rfl⟩

theorem coverageGaps_eq_nil_iff : coverageGaps trees = [] ↔ Covered trees := by
  rw [covered_iff, List.eq_nil_iff_forall_not_mem]
  constructor
  · intro hnone path hpartial
    obtain ⟨gap, hgap, _⟩ := exists_gap_iff.mpr hpartial
    exact hnone gap hgap
  · exact fun hnone gap hgap => hnone gap.path (mem_coverageGaps_iff.mp hgap).2

/-- Gaps stand in the order in which their paths are first met. -/
theorem pairwise_coverageGaps (trees : ByMode (OrderedMap TokenPath α)) :
    (coverageGaps trees).Pairwise fun gap later =>
      (metPaths trees).idxOf gap.path < (metPaths trees).idxOf later.path := by
  -- At most one gap is found at each path, and dropping repetitions keeps the first places in order.
  refine (Lists.pairwise_idxOf_eraseDups (metPaths trees)).filterMap _ ?_
  intro path other hlt gap hgap later hlater
  obtain ⟨rfl, _⟩ := gapAt?_eq_some_iff.mp hgap
  obtain ⟨rfl, _⟩ := gapAt?_eq_some_iff.mp hlater
  exact hlt

/-- If each mode has one tree, every gap splits the modes. -/
theorem splits_of_mem_coverageGaps (hmodes : (OrderedMap.keys trees).Nodup) {gap : CoverageGap}
    (hgap : gap ∈ coverageGaps trees) : Splits trees gap := by
  obtain ⟨heq, ⟨having, hhaving, hhas⟩, lacking, hlacking, hlacks⟩ := mem_coverageGaps_iff.mp hgap
  -- The parts are told apart by the names of the modes, so a mode must not have a second tree.
  have hone {tree : String × OrderedMap TokenPath α} (hmem : tree ∈ trees)
      {other : OrderedMap TokenPath α} (hother : (tree.1, other) ∈ trees) : other = tree.2 := by
    have hget := OrderedMap.get?_eq_some_of_mem hmodes hother
    rw [OrderedMap.get?_eq_some_of_mem hmodes (show (tree.1, tree.2) ∈ trees from hmem)] at hget
    exact (Option.some.inj hget).symm
  have hpresent : gap.presentIn = modesWith trees gap.path := congrArg (·.presentIn) heq
  have hmissing : gap.missingIn = modesWithout trees gap.path := congrArg (·.missingIn) heq
  refine ⟨?_, ?_, ?_, ?_, ?_, fun tree hmem => ?_, fun tree hmem => ?_⟩
  · rw [hpresent, hmissing]
    exact perm_modesWith_modesWithout trees gap.path
  · rw [hpresent]
    exact List.filter_sublist.map _
  · rw [hmissing]
    exact List.filter_sublist.map _
  · rw [hpresent]
    exact List.ne_nil_of_mem (mem_modesWith_iff.mpr ⟨having.2, hhaving, hhas⟩)
  · rw [hmissing]
    exact List.ne_nil_of_mem (mem_modesWithout_iff.mpr ⟨lacking.2, hlacking, hlacks⟩)
  · rw [hpresent, mem_modesWith_iff]
    exact ⟨fun ⟨_, hother, hpath⟩ => hone hmem hother ▸ hpath, fun hpath => ⟨_, hmem, hpath⟩⟩
  · rw [hmissing, mem_modesWithout_iff]
    exact ⟨fun ⟨_, hother, hpath⟩ => hone hmem hother ▸ hpath, fun hpath => ⟨_, hmem, hpath⟩⟩

/-- The check of the coverage is exact.  It finds nothing if and only if all modes have the same
paths.  Otherwise it finds one gap for each partial path and no other, in the order in which the
paths are first met on a way through the trees, and each gap splits the modes. -/
theorem coverageGaps_exact (hmodes : (OrderedMap.keys trees).Nodup) :
    (coverageGaps trees = [] ↔ Covered trees) ∧
      (∀ path, (∃ gap ∈ coverageGaps trees, gap.path = path) ↔ IsPartial trees path) ∧
      ((coverageGaps trees).Pairwise fun gap later =>
        (metPaths trees).idxOf gap.path < (metPaths trees).idxOf later.path) ∧
      ∀ gap ∈ coverageGaps trees, Splits trees gap :=
  ⟨coverageGaps_eq_nil_iff, fun _ => exists_gap_iff, pairwise_coverageGaps trees,
    fun _ hgap => splits_of_mem_coverageGaps hmodes hgap⟩

/-- Three modes, of which each lacks a path of the others. -/
def patchyTrees : ByMode (OrderedMap TokenPath Unit) :=
  [("light", [(["ink"], ()), (["gap"], ())]), ("dark", [(["gap"], ()), (["glow"], ())]),
    ("print", [(["gap"], ()), (["ink"], ())])]

theorem coverageGaps_exact_patchyTrees :
    (OrderedMap.keys patchyTrees).Nodup ∧ ¬ Covered patchyTrees ∧
      coverageGaps patchyTrees =
        [⟨["ink"], ["light", "print"], ["dark"]⟩, ⟨["glow"], ["dark"], ["light", "print"]⟩] ∧
      ∀ gap ∈ coverageGaps patchyTrees, Splits patchyTrees gap := by
  have hmodes : (OrderedMap.keys patchyTrees).Nodup := by decide
  obtain ⟨hnil, _, _, hsplits⟩ := coverageGaps_exact hmodes
  have hgaps : coverageGaps patchyTrees =
      [⟨["ink"], ["light", "print"], ["dark"]⟩, ⟨["glow"], ["dark"], ["light", "print"]⟩] := by
    decide
  refine ⟨hmodes, fun hcovered => ?_, hgaps, hsplits⟩
  rw [hnil.mpr hcovered] at hgaps
  cases hgaps

end DesignTokens.Cascade
