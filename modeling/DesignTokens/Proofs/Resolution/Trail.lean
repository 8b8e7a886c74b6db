import DesignTokens.Proofs.Resolution.Ends
import Mathlib.Data.List.Chain
import Mathlib.Data.List.Nodup
/-!
# The way of a walk

A walk passes paths along which the references lead, none of them twice and none that is known to
fail.  Where it ends without a terminal, the paths that it has passed are the whole way from its
start to a path without a token, to a path on the way, or to a path that is known to fail.
-/

set_option autoImplicit false

namespace DesignTokens.Resolution

variable {tree : TokenTree} {memo : Memo} {failed visited way : List TokenPath}
  {path target current : TokenPath}

/-! ## Along references -/

/-- Where the references lead along a list, they lead from every path before the last one to it. -/
theorem transGen_of_isChain {earlier : List TokenPath} {last : TokenPath}
    (h : List.IsChain (Follows tree) (earlier ++ [last])) (hpath : path ∈ earlier) :
    Relation.TransGen (Follows tree) path last := by
  have hpairs := List.isChain_iff_pairwise.mp (h.imp fun _ _ => Relation.TransGen.single)
  exact (List.pairwise_append.mp hpairs).2.2 path hpath last List.mem_cons_self

/-- Where the references lead along a list, they lead from the first path to every one. -/
theorem reflTransGen_of_isChain {first : TokenPath} {rest : List TokenPath}
    (h : List.IsChain (Follows tree) (first :: rest)) (hpath : path ∈ first :: rest) :
    Relation.ReflTransGen (Follows tree) first path := by
  have hpairs := List.isChain_iff_pairwise.mp (h.imp fun _ _ => Relation.TransGen.single)
  cases List.mem_cons.mp hpath with
  | inl heq => exact heq ▸ .refl
  | inr hrest => exact ((List.pairwise_cons.mp hpairs).1 path hrest).to_reflTransGen

theorem rightUnique_follows (tree : TokenTree) : Relator.RightUnique (Follows tree) :=
  fun _ _ _ h h' => h.unique h'

/-- A path whose references come back to it is reached from all that they lead to. -/
theorem reflTransGen_back (hcycle : Relation.TransGen (Follows tree) path path)
    (h : Relation.ReflTransGen (Follows tree) path target) :
    Relation.ReflTransGen (Follows tree) target path := by
  induction h with
  | refl => exact .refl
  | tail _ hnext ih =>
    rcases ih.cases_head with rfl | ⟨other, hother, hback⟩
    · obtain ⟨other, hother, hback⟩ := Relation.TransGen.head'_iff.mp hcycle
      rwa [hnext.unique hother]
    · rwa [hnext.unique hother]

/-- The paths of a cycle lead to the same paths. -/
theorem transGen_iff_of_cycle (hcycle : Relation.TransGen (Follows tree) path path)
    (h : Relation.ReflTransGen (Follows tree) path target) (other : TokenPath) :
    Relation.TransGen (Follows tree) path other ↔ Relation.TransGen (Follows tree) target other :=
  ⟨fun hother => Relation.TransGen.trans_right (reflTransGen_back hcycle h) hother,
    fun hother => Relation.TransGen.trans_right h hother⟩

/-! ## Walks -/

/-- The way that a walk has come: the references lead along it to where the walk is, no path of it
stands twice, and none is known to fail. -/
structure Trail (tree : TokenTree) (failed visited : List TokenPath) (current : TokenPath) :
    Prop where
  follows : List.IsChain (Follows tree) (visited ++ [current])
  distinct : visited.Nodup
  unfailed : ∀ path ∈ visited, path ∉ failed

theorem trail_nil (tree : TokenTree) (failed : List TokenPath) (current : TokenPath) :
    Trail tree failed [] current :=
  ⟨.singleton current, .nil, fun _ hmem => absurd hmem List.not_mem_nil⟩

/-- Going on along a reference from a path that is new and not known to fail. -/
theorem Trail.next (h : Trail tree failed visited current) (hnew : current ∉ visited)
    (hopen : current ∉ failed) (hnext : Follows tree current target) :
    Trail tree failed (visited ++ [current]) target := by
  refine ⟨?_, ?_, ?_⟩
  · refine h.follows.append (.singleton target) ?_
    simpa using hnext
  · exact h.distinct.append (by simp) (List.disjoint_singleton.mpr hnew)
  · intro path hpath
    cases List.mem_append.mp hpath with
    | inl hvisited => exact h.unfailed path hvisited
    | inr hcurrent => rwa [List.mem_singleton.mp hcurrent]

/-- The way of a walk that ends without a terminal, and which begins with the way before. -/
def WalkEnd.Comes (tree : TokenTree) (failed way : List TokenPath) : WalkEnd → Prop
  | .terminal _ _ => True
  | .missing passed path => way <+: passed ++ [path] ∧ Trail tree failed passed path ∧
      path ∉ passed ∧ path ∉ OrderedMap.keys tree
  | .cycle passed path => way <+: passed ++ [path] ∧ Trail tree failed passed path ∧
      path ∈ passed
  | .failed passed => way <+: passed ∧ ∃ earlier, ∃ last ∈ failed,
      passed = earlier ++ [last] ∧ Trail tree failed earlier last

/-- A way that begins with a longer one begins with the shorter one. -/
theorem WalkEnd.Comes.of_longer {result : WalkEnd} {longer : List TokenPath}
    (h : result.Comes tree failed longer) (hlonger : way <+: longer) :
    result.Comes tree failed way := by
  cases result with
  | terminal found passed => trivial
  | missing passed path | cycle passed path | failed passed => exact ⟨hlonger.trans h.1, h.2⟩

theorem walk_comes (htrail : Trail tree failed visited current) :
    (walk tree memo failed visited current).Comes tree failed (visited ++ [current]) := by
  fun_induction walk tree memo failed visited current with
  | case1 visited current hmem => exact ⟨List.prefix_rfl, htrail, hmem⟩
  | case2 visited current _ hmem =>
    exact ⟨List.prefix_rfl, visited, current, hmem, rfl, htrail⟩
  | case3 | case5 => trivial
  | case4 visited current hnew _ _ hget =>
    exact ⟨List.prefix_rfl, htrail, hnew, (OrderedMap.get?_eq_none_iff _ _).mp hget⟩
  | case6 visited current hnew hopen _ token hget target hvalue _ ih =>
    have hnext : Follows tree current target := ⟨token, hget, hvalue⟩
    exact (ih (htrail.next hnew hopen hnext)).of_longer (List.prefix_append _ _)

end DesignTokens.Resolution
