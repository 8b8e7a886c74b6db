import DesignTokens.Proofs.Resolution.Genuine
import DesignTokens.Proofs.Resolution.LookUp
/-!
# What the chain of a path tells

Messages show the chain of references from a path.  It is followed for them alone: nothing is
remembered on the way, and nothing is said of how it ends.  Still it is the way of a walk that
resolves the path without memories, so its last path tells what a look-up says in a tree that has a
fingerprint: the value if there is a literal, the broken chain if there is no token, and the cycle if
the path stands earlier in the chain.
-/

set_option autoImplicit false

namespace DesignTokens

namespace Resolution

variable {tree : TokenTree} {mode : String} {visited passed chain : List TokenPath}
  {start path target current last : TokenPath} {token : Token} {value : Scalar}
  {terminal : Terminal}

/-! ## Chains -/

/-- A chain of references from a path: each path but the last has a token that refers to the next
one, and no path stands twice, except that the last one may stand earlier. -/
structure FollowedFrom (tree : TokenTree) (start : TokenPath) (chain : List TokenPath) : Prop where
  begins : chain.head? = some start
  follows : List.IsChain (Follows tree) chain
  distinct : chain.dropLast.Nodup

/-- The last path of a chain has a literal. -/
def EndsAtLiteral (tree : TokenTree) (chain : List TokenPath) (value : Scalar) : Prop :=
  ∃ last ∈ chain.getLast?, ∃ token, OrderedMap.get? tree last = some token ∧
    token.value = .literal value

/-- The last path of a chain has no token. -/
def EndsAtMissing (tree : TokenTree) (chain : List TokenPath) : Prop :=
  ∃ last ∈ chain.getLast?, last ∉ OrderedMap.keys tree

/-- The last path of a chain stands in it earlier. -/
def EndsAtRepeat (chain : List TokenPath) : Prop :=
  ∃ last ∈ chain.getLast?, last ∈ chain.dropLast

/-- The way of a walk is a chain from its start. -/
theorem Trail.followedFrom {failed : List TokenPath} (h : Trail tree failed passed last)
    (hway : [start] <+: passed ++ [last]) : FollowedFrom tree start (passed ++ [last]) :=
  ⟨head?_of_begins hway, h.follows, by rw [List.dropLast_concat]; exact h.distinct⟩

/-- A path before the last one refers to another. -/
theorem FollowedFrom.exists_follows (h : FollowedFrom tree start chain)
    (hpath : path ∈ chain.dropLast) : ∃ next, Follows tree path next := by
  obtain ⟨passed, last, rfl⟩ :=
    (List.eq_nil_or_concat' chain).resolve_left fun hnil => by simp [hnil] at hpath
  rw [List.dropLast_concat] at hpath
  obtain ⟨next, hnext, _⟩ := Relation.TransGen.head'_iff.mp (transGen_of_isChain h.follows hpath)
  exact ⟨next, hnext⟩

/-- A chain has no more paths before its last one than the tree has entries. -/
theorem FollowedFrom.length_le (h : FollowedFrom tree start chain) :
    chain.length ≤ tree.length + 1 := by
  have hknown : chain.dropLast ⊆ OrderedMap.keys tree := by
    intro path hpath
    obtain ⟨next, hnext⟩ := h.exists_follows hpath
    exact hnext.mem_keys
  have hlength := (List.subperm_of_subset h.distinct hknown).length_le
  rw [List.length_dropLast, OrderedMap.keys, List.length_map] at hlength
  omega

/-! ## A chain ends in one way only -/

theorem EndsAtLiteral.unique {other : Scalar} (h : EndsAtLiteral tree chain value)
    (h' : EndsAtLiteral tree chain other) : value = other := by
  obtain ⟨last, hlast, token, hget, hvalue⟩ := h
  obtain ⟨last', hlast', token', hget', hvalue'⟩ := h'
  rw [Option.mem_unique hlast' hlast, hget, Option.some.injEq] at hget'
  rw [← hget', hvalue, TokenValue.literal.injEq] at hvalue'
  exact hvalue'

theorem EndsAtLiteral.not_missing (h : EndsAtLiteral tree chain value) :
    ¬ EndsAtMissing tree chain := by
  obtain ⟨last, hlast, token, hget, _⟩ := h
  rintro ⟨last', hlast', habsent⟩
  rw [Option.mem_unique hlast' hlast] at habsent
  exact habsent (OrderedMap.mem_keys_of_get?_eq_some hget)

/-- A last path that stands earlier refers to another, as all paths before the last one do. -/
theorem FollowedFrom.exists_follows_last (h : FollowedFrom tree start chain)
    (hrepeat : EndsAtRepeat chain) (hlast : last ∈ chain.getLast?) :
    ∃ next, Follows tree last next := by
  obtain ⟨last', hlast', hmem⟩ := hrepeat
  rw [Option.mem_unique hlast' hlast] at hmem
  exact h.exists_follows hmem

theorem EndsAtLiteral.not_repeat (h : EndsAtLiteral tree chain value)
    (hchain : FollowedFrom tree start chain) : ¬ EndsAtRepeat chain := by
  obtain ⟨last, hlast, token, hget, hvalue⟩ := h
  intro hrepeat
  obtain ⟨next, token', hget', hvalue'⟩ := hchain.exists_follows_last hrepeat hlast
  rw [hget, Option.some.injEq] at hget'
  rw [← hget', hvalue] at hvalue'
  cases hvalue'

theorem EndsAtMissing.not_repeat (h : EndsAtMissing tree chain)
    (hchain : FollowedFrom tree start chain) : ¬ EndsAtRepeat chain := by
  obtain ⟨last, hlast, habsent⟩ := h
  intro hrepeat
  obtain ⟨next, hnext⟩ := hchain.exists_follows_last hrepeat hlast
  exact habsent hnext.mem_keys

/-! ## Following a chain -/

theorem chainFrom_of_mem (h : current ∈ visited) :
    chainFrom tree visited current = visited ++ [current] := by
  rw [chainFrom, dif_pos h]

theorem chainFrom_of_missing (hget : OrderedMap.get? tree current = none) :
    chainFrom tree visited current = visited ++ [current] := by
  rw [chainFrom]
  split
  · rfl
  · split <;> simp_all

theorem chainFrom_of_literal (hget : OrderedMap.get? tree current = some token)
    (hvalue : token.value = .literal value) :
    chainFrom tree visited current = visited ++ [current] := by
  rw [chainFrom]
  split
  · rfl
  · split
    · rfl
    · split <;> simp_all

theorem chainFrom_of_follows (hnew : current ∉ visited) (hnext : Follows tree current target) :
    chainFrom tree visited current = chainFrom tree (visited ++ [current]) target := by
  obtain ⟨token, hget, hvalue⟩ := hnext
  rw [chainFrom, dif_neg hnew]
  split
  · simp_all
  · split <;> simp_all

/-- Following the references goes on with the way it has come, and comes along a way of its own. -/
theorem Trail.exists_chainFrom (h : Trail tree [] visited current) :
    ∃ passed last, chainFrom tree visited current = passed ++ [last] ∧
      visited ++ [current] <+: passed ++ [last] ∧ Trail tree [] passed last := by
  fun_induction chainFrom tree visited current with
  | case1 visited current | case2 visited current | case3 visited current =>
    exact ⟨visited, current, rfl, List.prefix_rfl, h⟩
  | case4 visited current hnew token hget target hvalue _ ih =>
    have hnext : Follows tree current target := ⟨token, hget, hvalue⟩
    obtain ⟨passed, last, hchain, hway, htrail⟩ := ih (h.next hnew List.not_mem_nil hnext)
    exact ⟨passed, last, hchain, (List.prefix_append _ _).trans hway, htrail⟩

/-- What is shown for a path is a chain from it. -/
theorem followedFrom_referenceChain (tree : TokenTree) (path : TokenPath) :
    FollowedFrom tree path (referenceChain tree path) := by
  obtain ⟨passed, last, hchain, hway, htrail⟩ := (trail_nil tree [] path).exists_chainFrom
  rw [referenceChain, hchain]
  exact htrail.followedFrom hway

-- A way into a cycle: it stops where it comes back.
example : referenceChain [(["a"], ⟨["a"], none, .reference ["b"], "base", none⟩),
    (["b"], ⟨["b"], none, .reference ["c"], "base", none⟩),
    (["c"], ⟨["c"], none, .reference ["b"], "base", none⟩)] ["a"] =
      [["a"], ["b"], ["c"], ["b"]] := by
  cbv

/-- The chain from a path that leads to a terminal ends at its literal. -/
theorem Leads.endsAtLiteral (h : Leads tree current terminal)
    (hpassed : Passed tree visited current) :
    EndsAtLiteral tree (chainFrom tree visited current) terminal.1 := by
  -- All passed paths lead to here, so that the chain cannot have come back to one of them.
  induction h generalizing visited with
  | @literal path token value hget hvalue =>
    rw [chainFrom_of_literal hget hvalue]
    exact ⟨path, by simp, token, hget, hvalue⟩
  | @reference path target token terminal hget hvalue hrest ih =>
    have hnext : Follows tree path target := ⟨token, hget, hvalue⟩
    have hnew : path ∉ visited := fun hmem =>
      hpassed.not_leads_of_mem hmem (hnext.leads_iff.mpr hrest)
    rw [chainFrom_of_follows hnew hnext]
    exact ih (hpassed.next hnext)

/-! ## Chains and walks -/

/-- The way that a walk has come when it ends. -/
def WalkEnd.way : WalkEnd → List TokenPath
  | .terminal _ passed => passed
  | .missing passed path => passed ++ [path]
  | .cycle passed path => passed ++ [path]
  | .failed passed => passed

/-- A walk that remembers nothing and knows of no failure comes along the chain of references. -/
theorem way_walk_nil (tree : TokenTree) (visited : List TokenPath) (current : TokenPath) :
    (walk tree [] [] visited current).way = chainFrom tree visited current := by
  fun_induction walk tree [] [] visited current with
  | case1 visited current hmem => exact (chainFrom_of_mem hmem).symm
  | case2 visited current _ hmem => exact absurd hmem List.not_mem_nil
  | case3 visited current _ _ found hget => simp at hget
  | case4 visited current _ _ _ hget => exact (chainFrom_of_missing hget).symm
  | case5 visited current _ _ _ token hget value hvalue =>
    exact (chainFrom_of_literal hget hvalue).symm
  | case6 visited current hnew _ _ token hget target hvalue _ ih =>
    rw [ih, chainFrom_of_follows hnew ⟨token, hget, hvalue⟩]

/-! ## What a look-up says -/

/-- What a look-up says is told by a chain: it finds the literal at which the chain ends, it reports
the whole chain if that ends at a path without a token, and it reports the end of the chain from the
earlier place of the last path on if that stands in it twice. -/
structure Explains (tree : TokenTree) (mode : String) (chain : List TokenPath)
    (found : Except Failure Scalar) : Prop where
  ok_iff : ∀ value, found = .ok value ↔ EndsAtLiteral tree chain value
  unresolved_iff : (∃ broken, found = .error (.error (.unresolved broken))) ↔ EndsAtMissing tree chain
  broken : ∀ broken, found = .error (.error (.unresolved broken)) →
    broken.mode = mode ∧ broken.chain = chain ∧ broken.missing ∈ chain.getLast?
  cyclic_iff : (∃ loop, found = .error (.error (.cyclic loop))) ↔ EndsAtRepeat chain
  cycle : ∀ loop, found = .error (.error (.cyclic loop)) → loop.mode = mode ∧
    ∃ approach entry rest, chain = approach ++ loop.cycle ∧ loop.cycle = entry :: (rest ++ [entry])

theorem EndsAtLiteral.explains (h : EndsAtLiteral tree chain value)
    (hchain : FollowedFrom tree start chain) : Explains tree mode chain (.ok value) where
  ok_iff other := by
    rw [Except.ok.injEq]
    exact ⟨fun heq => heq ▸ h, fun hother => h.unique hother⟩
  unresolved_iff := iff_of_false (by simp) h.not_missing
  broken _ heq := by cases heq
  cyclic_iff := iff_of_false (by simp) (h.not_repeat hchain)
  cycle _ heq := by cases heq

theorem explains_missing {referencing : TokenPath}
    (hchain : FollowedFrom tree start (passed ++ [last])) (habsent : last ∉ OrderedMap.keys tree) :
    Explains tree mode (passed ++ [last])
      (.error (.error (.unresolved ⟨mode, referencing, last, passed ++ [last]⟩))) where
  ok_iff value := iff_of_false (by simp) fun hliteral =>
    hliteral.not_missing ⟨last, by simp, habsent⟩
  unresolved_iff := iff_of_true ⟨_, rfl⟩ ⟨last, by simp, habsent⟩
  broken broken heq := by
    cases heq
    exact ⟨rfl, rfl, by simp⟩
  cyclic_iff := iff_of_false (by simp) (EndsAtMissing.not_repeat ⟨last, by simp, habsent⟩ hchain)
  cycle _ heq := by cases heq

theorem explains_cycle {approach rest : List TokenPath}
    (hchain : FollowedFrom tree start (approach ++ path :: (rest ++ [path]))) :
    Explains tree mode (approach ++ path :: (rest ++ [path]))
      (.error (.error (.cyclic ⟨mode, path :: (rest ++ [path])⟩))) := by
  have hrepeat : EndsAtRepeat (approach ++ path :: (rest ++ [path])) := by
    rw [← List.cons_append, ← List.append_assoc]
    exact ⟨path, List.getLast?_concat, by rw [List.dropLast_concat]; simp⟩
  exact {
    ok_iff := fun value => iff_of_false (by simp) fun hliteral => hliteral.not_repeat hchain hrepeat
    unresolved_iff := iff_of_false (by simp) fun hmissing => hmissing.not_repeat hchain hrepeat
    broken := fun _ heq => by cases heq
    cyclic_iff := iff_of_true ⟨_, rfl⟩ hrepeat
    cycle := fun loop heq => by
      cases heq
      exact ⟨rfl, approach, path, rest, rfl, rfl⟩ }

/-- Without a terminal, a walk that remembers nothing reports what the chain of the path tells. -/
theorem explains_failure {why : Unresolvable} {failing : List TokenPath}
    (h : (walk tree [] [] [] path).failure? mode = some (why, failing)) :
    ∃ e, why = .error e ∧ Explains tree mode (referenceChain tree path) (.error (.error e)) := by
  have hchain := followedFrom_referenceChain tree path
  have hcomes : (walk tree [] [] [] path).Comes tree [] [path] := walk_comes (trail_nil tree [] path)
  rw [referenceChain, ← way_walk_nil] at hchain ⊢
  cases hwalk : walk tree [] [] [] path with
  | terminal found passed => simp [hwalk, WalkEnd.failure?] at h
  | missing passed last =>
    rw [hwalk] at h hcomes hchain
    obtain ⟨_, _, _, habsent⟩ := hcomes
    cases h
    exact ⟨_, rfl, explains_missing hchain habsent⟩
  | cycle passed last =>
    rw [hwalk] at h hcomes hchain
    obtain ⟨hway, htrail, hmem⟩ := hcomes
    obtain ⟨approach, rest, hpassed, hdrop, _⟩ := htrail.exists_enters hmem hway
    have hsplit : (WalkEnd.cycle passed last).way = approach ++ last :: (rest ++ [last]) := by
      rw [WalkEnd.way, hpassed, List.append_assoc, List.cons_append]
    rw [hsplit] at hchain ⊢
    cases h
    refine ⟨_, rfl, ?_⟩
    rw [hdrop, List.cons_append]
    exact explains_cycle hchain
  | failed passed => exact absurd hwalk (walk_ne_failed passed)

end Resolution

namespace ResolutionCache

open Resolution

/-- Whatever is remembered of a mode, if it is true, a look-up says what the chain of the path
tells. -/
theorem explains_lookUp {cache : ResolutionCache} {tree : TokenTree} {mode : String}
    (hmemo : Memo.Sound tree (cache.memoFor mode tree)) (path : TokenPath) :
    Explains tree mode (referenceChain tree path)
      ((cache.lookUp tree mode path).1.mapError Failure.error) := by
  have hchain := followedFrom_referenceChain tree path
  by_cases hpath : path ∈ OrderedMap.keys tree
  · have hsound : (cache.startPass mode tree).Sound tree := Pass.sound_of_memo hmemo 0 0
    rw [lookUp_of_mem hpath]
    -- A remembered terminal ends the look-up before the chain ends, so that the two are compared by
    -- where the path leads; without a terminal nothing on the way is remembered.
    by_cases hleads : ∃ terminal, Leads tree path terminal
    · obtain ⟨terminal, hterminal⟩ := hleads
      rw [(hsound.resolvePath_of_leads mode hterminal).1]
      exact (hterminal.endsAtLiteral (passed_nil tree path)).explains hchain
    · obtain ⟨why, failing, hwhy, _, hresolve⟩ :=
        hsound.resolvePath_of_not_leads mode (not_exists.mp hleads)
      obtain ⟨e, rfl, hexplains⟩ := explains_failure hwhy
      rw [hresolve]
      exact hexplains
  · have hhas : OrderedMap.has tree path = false := by
      rwa [← Bool.not_eq_true, OrderedMap.has_iff_mem_keys]
    have halone : referenceChain tree path = [] ++ [path] :=
      chainFrom_of_missing ((OrderedMap.get?_eq_none_iff _ _).mpr hpath)
    unfold lookUp
    simp only [hhas, Bool.false_eq_true, if_false]
    rw [halone] at hchain ⊢
    exact explains_missing hchain hpath

/-- The chain of references that is shown for a path is a chain from it, with no more than one path
more than the tree has entries, and it tells what looking the path up in a new cache says, if no
integer of the tree has too many digits.  With such an integer every look-up breaks down, wherever
the chain leads. -/
theorem referenceChain_explains (tree : TokenTree) (mode : String) (path : TokenPath) :
    FollowedFrom tree path (referenceChain tree path) ∧
      (referenceChain tree path).length ≤ tree.length + 1 ∧
      (tree.WithinDigits →
        Explains tree mode (referenceChain tree path) (empty.resolvePath tree mode path).1) ∧
      (¬ tree.WithinDigits →
        (empty.resolvePath tree mode path).1 = .error (.breakdown .integerTooLong)) := by
  have hchain := followedFrom_referenceChain tree path
  have hmemo : Memo.Sound tree (empty.memoFor mode tree) := Memo.sound_nil tree
  refine ⟨hchain, hchain.length_le, fun hdigits => ?_, fun hlong => ?_⟩
  · rw [resolvePath_of_isRenderable ((TokenTree.isRenderable_iff tree).mpr hdigits)]
    exact explains_lookUp hmemo path
  · rw [resolvePath_of_not_isRenderable ((TokenTree.not_withinDigits_iff tree).mp hlong)]

theorem referenceChain_explains_knottedTree :
    knottedTree.WithinDigits ∧
      FollowedFrom knottedTree ["a"] (referenceChain knottedTree ["a"]) ∧
      Explains knottedTree "light" (referenceChain knottedTree ["a"])
        (empty.resolvePath knottedTree "light" ["a"]).1 := by
  obtain ⟨hchain, _, hexplains, _⟩ := referenceChain_explains knottedTree "light" ["a"]
  exact ⟨withinDigits_knottedTree, hchain, hexplains withinDigits_knottedTree⟩

/-- The chain of a path ends on a literal, and yet the look-up of the path gives no value, as the
literal has too many digits. -/
theorem long_literal_is_not_looked_up :
    EndsAtLiteral longTree (referenceChain longTree ["big"]) (.int longInteger) ∧
      (empty.resolvePath longTree "light" ["big"]).1 = .error (.breakdown .integerTooLong) := by
  have hchain : referenceChain longTree ["big"] = [["big"]] :=
    chainFrom_of_literal get?_longTree rfl
  refine ⟨?_, ?_⟩
  · rw [hchain]
    exact ⟨["big"], rfl, _, get?_longTree, rfl⟩
  · rw [resolvePath_of_not_isRenderable
      ((TokenTree.not_withinDigits_iff longTree).mp not_withinDigits_longTree)]

end ResolutionCache

end DesignTokens
