import DesignTokens.Proofs.Resolution.Pass
/-!
# How chains end

A chain of references ends in one of three ways: at a literal, at a path without a token, or in a
cycle.  The last two are relations of their own here, as the first one is in `Chain`, and nothing
in them knows of walks.  A walk that knows of no failure says which of the three it is.
-/

set_option autoImplicit false

namespace DesignTokens.Resolution

variable {tree : TokenTree} {memo : Memo} {visited : List TokenPath}
  {path target current : TokenPath} {terminal : Terminal}

/-- The references from a path come to a path without a token. -/
def BreaksOff (tree : TokenTree) (path : TokenPath) : Prop :=
  ∃ missing, Relation.ReflTransGen (Follows tree) path missing ∧
    missing ∉ OrderedMap.keys tree

/-- The references from a path come to a path that they come back to. -/
def Loops (tree : TokenTree) (path : TokenPath) : Prop :=
  ∃ member, Relation.ReflTransGen (Follows tree) path member ∧
    Relation.TransGen (Follows tree) member member

/-! ## Along a reference -/

theorem Follows.mem_keys (h : Follows tree path target) : path ∈ OrderedMap.keys tree := by
  obtain ⟨token, hget, _⟩ := h
  exact OrderedMap.mem_keys_of_get?_eq_some hget

theorem breaksOff_of_not_mem_keys (h : path ∉ OrderedMap.keys tree) : BreaksOff tree path :=
  ⟨path, .refl, h⟩

theorem loops_of_transGen (h : Relation.TransGen (Follows tree) path path) : Loops tree path :=
  ⟨path, .refl, h⟩

/-- A reference to a chain that breaks off begins one. -/
theorem BreaksOff.of_follows (h : BreaksOff tree target) (hnext : Follows tree path target) :
    BreaksOff tree path := by
  obtain ⟨missing, hchain, hmissing⟩ := h
  exact ⟨missing, .head hnext hchain, hmissing⟩

/-- A reference to a chain that goes round begins one. -/
theorem Loops.of_follows (h : Loops tree target) (hnext : Follows tree path target) :
    Loops tree path := by
  obtain ⟨member, hchain, hcycle⟩ := h
  exact ⟨member, .head hnext hchain, hcycle⟩

/-- A path of a chain that goes round refers to another one, from which the chain goes round too. -/
theorem Loops.exists_follows (h : Loops tree path) :
    ∃ target, Follows tree path target ∧ Loops tree target := by
  obtain ⟨member, hchain, hcycle⟩ := h
  rcases hchain.cases_head with rfl | ⟨target, hnext, hrest⟩
  · obtain ⟨target, hnext, hback⟩ := Relation.TransGen.head'_iff.mp hcycle
    exact ⟨target, hnext, target, .refl, .tail' hback hnext⟩
  · exact ⟨target, hnext, member, hrest, hcycle⟩

/-- Nothing leads out of a chain that goes round. -/
theorem Loops.of_reflTransGen (h : Loops tree path)
    (hchain : Relation.ReflTransGen (Follows tree) path target) : Loops tree target := by
  induction hchain with
  | refl => exact h
  | tail _ hnext ih =>
    obtain ⟨other, hother, hloops⟩ := ih.exists_follows
    rwa [hnext.unique hother]

/-! ## Each chain ends in one way only -/

theorem Loops.not_breaksOff (h : Loops tree path) : ¬ BreaksOff tree path := by
  rintro ⟨missing, hchain, hmissing⟩
  obtain ⟨target, hnext, _⟩ := (h.of_reflTransGen hchain).exists_follows
  exact hmissing hnext.mem_keys

theorem Leads.of_reflTransGen (h : Leads tree path terminal)
    (hchain : Relation.ReflTransGen (Follows tree) path target) : Leads tree target terminal := by
  induction hchain with
  | refl => exact h
  | tail _ hnext ih => exact hnext.leads_iff.mp ih

theorem Leads.not_breaksOff (h : Leads tree path terminal) : ¬ BreaksOff tree path := by
  rintro ⟨missing, hchain, hmissing⟩
  exact hmissing (h.of_reflTransGen hchain).mem_keys

theorem Leads.not_loops (h : Leads tree path terminal) : ¬ Loops tree path := by
  rintro ⟨member, hchain, hcycle⟩
  exact (h.of_reflTransGen hchain).not_cyclic hcycle

/-! ## What walks say -/

/-- What the end of a walk says of the chain of the path where the walk started. -/
def WalkEnd.Tells (tree : TokenTree) (start : TokenPath) : WalkEnd → Prop
  | .terminal found _ => Leads tree start found
  | .missing _ _ => BreaksOff tree start
  | .cycle _ _ => Loops tree start
  | .failed _ => False

/-- What is told of where a reference points to is told of where it stands. -/
theorem WalkEnd.Tells.of_follows {result : WalkEnd} (h : result.Tells tree target)
    (hnext : Follows tree current target) : result.Tells tree current := by
  cases result with
  | terminal found passed => exact hnext.leads_iff.mpr h
  | missing passed path => exact BreaksOff.of_follows h hnext
  | cycle passed path => exact Loops.of_follows h hnext
  | failed passed => exact h

/-- A walk that knows of no failure tells how the chain ends. -/
theorem walk_tells (hmemo : Memo.Sound tree memo) (hpassed : Passed tree visited current) :
    (walk tree memo [] visited current).Tells tree current := by
  fun_induction walk tree memo [] visited current with
  | case1 visited current hmem => exact loops_of_transGen (hpassed current hmem)
  | case2 visited current _ hmem => exact absurd hmem List.not_mem_nil
  | case3 visited current _ _ found hget => exact hmemo current found hget
  | case4 visited current _ _ _ hget =>
    exact breaksOff_of_not_mem_keys ((OrderedMap.get?_eq_none_iff _ _).mp hget)
  | case5 visited current _ _ _ token hget value hvalue => exact .literal hget hvalue
  | case6 visited current _ _ _ token hget target hvalue _ ih =>
    have hnext : Follows tree current target := ⟨token, hget, hvalue⟩
    exact (ih (hpassed.next hnext)).of_follows hnext

/-- What resolving a path says of its chain, if no failure is known. -/
def SaysHowItEnds (tree : TokenTree) (path : TokenPath) : Except Unresolvable Terminal → Prop
  | .ok terminal => Leads tree path terminal
  | .error (.error (.unresolved _)) => BreaksOff tree path
  | .error (.error (.cyclic _)) => Loops tree path
  | .error _ => False

/-- A pass that knows of no failure finds the terminal of a path, or the error that fits the end of
its chain. -/
theorem Pass.Sound.says_how_it_ends {pass : Pass} (h : pass.Sound tree) (hfailed : pass.failed = [])
    (mode : String) (start : TokenPath) :
    SaysHowItEnds tree start (pass.resolvePath tree mode start).1 := by
  unfold Pass.resolvePath
  cases hget : OrderedMap.get? pass.memo start with
  | some found => exact h.memo start found hget
  | none =>
    have htells := walk_tells h.memo (passed_nil tree start)
    rw [hfailed]
    simp only
    cases hwalk : walk tree pass.memo [] [] start with
    | terminal found passed | missing passed other | cycle passed other =>
      rw [hwalk] at htells
      exact htells
    | failed passed => exact absurd hwalk (walk_ne_failed passed)

/-! ## How long walks are -/

/-- The paths that a walk has passed when it ends. -/
def WalkEnd.passed : WalkEnd → List TokenPath
  | .terminal _ passed => passed
  | .missing passed _ => passed
  | .cycle passed _ => passed
  | .failed passed => passed

/-- A walk goes on only as long as there are paths that it has not passed. -/
theorem length_passed_walk_le (tree : TokenTree) (memo : Memo) (failed visited : List TokenPath)
    (current : TokenPath) :
    (walk tree memo failed visited current).passed.length ≤
      visited.length + unvisited tree visited + 1 := by
  fun_induction walk tree memo failed visited current with
  | case1 visited current hmem =>
    simp only [WalkEnd.passed]
    omega
  | case2 visited current _ hmem =>
    simp only [WalkEnd.passed, List.length_append, List.length_singleton]
    omega
  | case3 visited current _ _ found hget =>
    simp only [WalkEnd.passed, List.length_append, List.length_singleton]
    omega
  | case4 visited current _ _ _ hget =>
    simp only [WalkEnd.passed]
    omega
  | case5 visited current _ _ _ token hget value hvalue =>
    simp only [WalkEnd.passed, List.length_append, List.length_singleton]
    omega
  | case6 visited current hnew _ _ token hget target hvalue _ ih =>
    have hfewer := unvisited_lt hget hnew
    rw [List.length_append, List.length_singleton] at ih
    omega

/-- A walk ends after as many steps as the tree has entries, and one more at most. -/
theorem length_passed_walk_nil_le (tree : TokenTree) (memo : Memo) (failed : List TokenPath)
    (start : TokenPath) :
    (walk tree memo failed [] start).passed.length ≤ tree.length + 1 := by
  have hlength := length_passed_walk_le tree memo failed [] start
  have hcount : unvisited tree [] ≤ tree.length := List.countP_le_length
  rw [List.length_nil] at hlength
  omega

end DesignTokens.Resolution
