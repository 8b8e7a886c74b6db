import DesignTokens.Proofs.Resolution.Ends
import DesignTokens.Proofs.Resolution.Fingerprint
import Mathlib.Algebra.Group.Int.Defs
/-!
# What resolving a tree yields

A gathering pass keeps the entries whose references lead to a literal, in tree order, and leaves out
the others, whatever the chains look like and wherever they are entered first.  A strict pass yields
the same tree if every entry leads to a literal, and stops at an error if one does not.
-/

set_option autoImplicit false

namespace DesignTokens

namespace Resolution

variable {tree : TokenTree} {pass : Pass} {entries : List (TokenPath × Token)}
  {resolved : ResolvedTree}

/-- The resolved forms of the entries that lead to a literal, in order; the others are left out. -/
inductive Yields (tree : TokenTree) : List (TokenPath × Token) → ResolvedTree → Prop where
  | nil : Yields tree [] []
  | found {path : TokenPath} {token : Token} {terminal : Terminal}
      {entries : List (TokenPath × Token)} {resolved : ResolvedTree}
      (hleads : Leads tree path terminal) (hrest : Yields tree entries resolved) :
      Yields tree ((path, token) :: entries)
        ((path, resolvedToken path token terminal) :: resolved)
  | leftOut {path : TokenPath} {token : Token} {entries : List (TokenPath × Token)}
      {resolved : ResolvedTree} (hnot : ∀ terminal, ¬ Leads tree path terminal)
      (hrest : Yields tree entries resolved) : Yields tree ((path, token) :: entries) resolved

/-- What stands in a resolved tree is the resolved form of an entry that leads to a literal. -/
theorem Yields.mem_iff (h : Yields tree entries resolved) {path : TokenPath}
    {token : ResolvedToken} :
    (path, token) ∈ resolved ↔ ∃ raw terminal, (path, raw) ∈ entries ∧
      Leads tree path terminal ∧ token = resolvedToken path raw terminal := by
  induction h with
  | nil => simp
  | @found first raw terminal _ _ hleads _ ih =>
    rw [List.mem_cons, ih, Prod.mk.injEq]
    constructor
    · rintro (⟨rfl, rfl⟩ | ⟨raw', terminal', hmem, hother, htoken⟩)
      · exact ⟨raw, terminal, List.mem_cons_self, hleads, rfl⟩
      · exact ⟨raw', terminal', List.mem_cons_of_mem _ hmem, hother, htoken⟩
    · rintro ⟨raw', terminal', hmem, hother, htoken⟩
      rcases List.mem_cons.mp hmem with heq | hrest
      · rw [Prod.mk.injEq] at heq
        obtain ⟨rfl, rfl⟩ := heq
        exact .inl ⟨rfl, hother.unique hleads ▸ htoken⟩
      · exact .inr ⟨raw', terminal', hrest, hother, htoken⟩
  | @leftOut first raw _ _ hnot _ ih =>
    rw [ih]
    constructor
    · rintro ⟨raw', terminal, hmem, hleads, htoken⟩
      exact ⟨raw', terminal, List.mem_cons_of_mem _ hmem, hleads, htoken⟩
    · rintro ⟨raw', terminal, hmem, hleads, htoken⟩
      rcases List.mem_cons.mp hmem with heq | hrest
      · rw [Prod.mk.injEq] at heq
        exact absurd (heq.1 ▸ hleads) (hnot terminal)
      · exact ⟨raw', terminal, hrest, hleads, htoken⟩

/-! ## Passes -/

/-- A gathering pass yields the entries that lead to a literal. -/
theorem Pass.Sound.yields (h : pass.Sound tree) (mode : String)
    (entries : List (TokenPath × Token)) :
    Yields tree entries (resolveEntries true tree mode pass entries).resolved := by
  induction entries generalizing pass with
  | nil => exact .nil
  | cons entry rest ih =>
    obtain ⟨path, token⟩ := entry
    have hafter := h.after_resolvePath mode path
    rw [resolveEntries]
    by_cases hleads : ∃ terminal, Leads tree path terminal
    · obtain ⟨terminal, hterminal⟩ := hleads
      have hfound := (h.resolvePath_of_leads mode hterminal).1
      generalize pass.resolvePath tree mode path = attempt at hafter hfound ⊢
      obtain ⟨result, after⟩ := attempt
      simp only at hafter hfound
      subst hfound
      exact .found hterminal (ih hafter)
    · have hnot := not_exists.mp hleads
      obtain ⟨why, _, _, _, hfailed⟩ := h.resolvePath_of_not_leads mode hnot
      rw [hfailed] at hafter ⊢
      -- An error that was reported for an earlier path leaves this one out all the same.
      cases why with
      | reported => exact .leftOut hnot (ih hafter)
      | error e => exact .leftOut hnot (ih hafter)

/-- A strict pass that knows of no failure goes through exactly if every entry leads to a literal. -/
theorem Pass.Sound.stopped_eq_none_iff (h : pass.Sound tree) (hfailed : pass.failed = [])
    (mode : String) (entries : List (TokenPath × Token)) :
    (resolveEntries false tree mode pass entries).stopped = none ↔
      ∀ entry ∈ entries, ∃ terminal, Leads tree entry.1 terminal := by
  induction entries generalizing pass with
  | nil => exact ⟨fun _ entry hmem => absurd hmem List.not_mem_nil, fun _ => rfl⟩
  | cons entry rest ih =>
    obtain ⟨path, token⟩ := entry
    rw [resolveEntries, List.forall_mem_cons]
    by_cases hleads : ∃ terminal, Leads tree path terminal
    · obtain ⟨terminal, hterminal⟩ := hleads
      obtain ⟨hfound, hsound, hkept⟩ := h.resolvePath_of_leads mode hterminal
      generalize pass.resolvePath tree mode path = attempt at hfound hsound hkept ⊢
      obtain ⟨result, after⟩ := attempt
      simp only at hfound hsound hkept
      subst hfound
      have hrest := ih hsound (hkept.trans hfailed)
      exact ⟨fun hnone => ⟨⟨terminal, hterminal⟩, hrest.mp hnone⟩, fun hall => hrest.mpr hall.2⟩
    · obtain ⟨e, after, herror⟩ :=
        h.resolvePath_of_not_leads_nil mode hfailed (not_exists.mp hleads)
      simp [herror, hleads]

end Resolution

namespace ResolutionCache

open Resolution

variable {tree : TokenTree} {cache : ResolutionCache} {mode : String}

/-- A gathering call on a tree with a fingerprint yields the paths whose references lead to a
literal. -/
theorem yields_resolve_true (h : tree.isRenderable = true)
    (hmemo : Memo.Sound tree (cache.memoFor mode tree)) :
    Yields tree tree (cache.resolve true tree mode).1.resolved := by
  rw [resolve_of_isRenderable h]
  exact (Pass.sound_of_memo hmemo 0 0 : (cache.startPass mode tree).Sound tree).yields mode tree

/-- Resolving a tree ends, since no walk is longer than the tree.  If no integer in it has too many
digits, then a gathering call goes through and yields exactly the paths whose references lead to a
literal, in tree order, each with that literal, its own layer, and its own type or else the type of
the token that has the literal; a strict call yields the same if all paths lead to a literal, and is
stopped by an error if one does not.  With such an integer, no call yields anything. -/
theorem resolve_yields (cache : ResolutionCache) (tree : TokenTree) (mode : String)
    (hmemo : Memo.Sound tree (cache.memoFor mode tree)) :
    (∀ memo failed start, (walk tree memo failed [] start).passed.length ≤ tree.length + 1) ∧
      (tree.WithinDigits →
        (cache.resolve true tree mode).1.stopped = none ∧
          Yields tree tree (cache.resolve true tree mode).1.resolved ∧
          ((∀ entry ∈ tree, ∃ terminal, Leads tree entry.1 terminal) →
            (cache.resolve false tree mode).1.stopped = none ∧
              (cache.resolve false tree mode).1.resolved =
                (cache.resolve true tree mode).1.resolved) ∧
          ((∃ entry ∈ tree, ∀ terminal, ¬ Leads tree entry.1 terminal) →
            ∃ e, (cache.resolve false tree mode).1.stopped = some (.error e))) ∧
      (¬ tree.WithinDigits → ∀ collect,
        cache.resolve collect tree mode = (.brokenDown .integerTooLong, cache)) := by
  refine ⟨length_passed_walk_nil_le tree, fun hdigits => ?_, fun hlong collect => ?_⟩
  · have hrenderable := (TokenTree.isRenderable_iff tree).mpr hdigits
    have hsound : (cache.startPass mode tree).Sound tree := Pass.sound_of_memo hmemo 0 0
    have hstrict := hsound.stopped_eq_none_iff rfl mode tree
    obtain ⟨hhead, hsame⟩ := stopped_eq_head?_errors tree mode (cache.startPass mode tree) tree
    refine ⟨stopped_resolve_true hrenderable cache mode, yields_resolve_true hrenderable hmemo,
      ?_, ?_⟩
    · intro hall
      have hnone := hstrict.mpr hall
      rw [resolve_of_isRenderable hrenderable, resolve_of_isRenderable hrenderable]
      exact ⟨hnone, congrArg Outcome.resolved (hsame hnone).symm⟩
    · rintro ⟨entry, hmem, hnot⟩
      have hstopped : (resolveEntries false tree mode (cache.startPass mode tree) tree).stopped ≠
          none := by
        intro hnone
        obtain ⟨terminal, hleads⟩ := hstrict.mp hnone entry hmem
        exact hnot terminal hleads
      obtain ⟨failure, hfailure⟩ := Option.ne_none_iff_exists'.mp hstopped
      obtain ⟨e, _, rfl⟩ := Option.map_eq_some_iff.mp (hhead.symm.trans hfailure)
      rw [resolve_of_isRenderable hrenderable]
      exact ⟨e, hfailure⟩
  · exact resolve_of_not_isRenderable ((TokenTree.not_withinDigits_iff tree).mp hlong) cache
      collect mode

/-- A tree with a chain of two references, a broken one, and a cycle of two. -/
def knottedTree : TokenTree :=
  [(["a"], ⟨["a"], none, .reference ["b"], "base", none⟩),
    (["b"], ⟨["b"], some .color, .reference ["c"], "base", none⟩),
    (["c"], ⟨["c"], some .dimension, .literal (.int 4), "core", none⟩),
    (["d"], ⟨["d"], none, .reference ["x"], "core", none⟩),
    (["e"], ⟨["e"], none, .reference ["f"], "core", none⟩),
    (["f"], ⟨["f"], none, .reference ["e"], "core", none⟩)]

/-- A cache that remembers where the middle of the chain leads. -/
def knottedCache : ResolutionCache :=
  { empty with
    modes := [("light", ⟨TokenTree.digestOf knottedTree.text,
      [(["b"], (.int 4, .dimension))]⟩)] }

theorem withinDigits_knottedTree : knottedTree.WithinDigits := by
  intro entry hmem n hvalue
  simp only [knottedTree, List.mem_cons, List.not_mem_nil, or_false] at hmem
  rcases hmem with rfl | rfl | rfl | rfl | rfl | rfl <;> cases hvalue
  exact Json.lt_pow_maxIntegerDigits (by decide)

theorem isRenderable_knottedTree : knottedTree.isRenderable = true :=
  (TokenTree.isRenderable_iff knottedTree).mpr withinDigits_knottedTree

theorem memoFor_knottedCache :
    knottedCache.memoFor "light" knottedTree = [(["b"], (.int 4, .dimension))] := by
  unfold memoFor
  rw [TokenTree.fingerprint_of_isRenderable isRenderable_knottedTree]
  exact if_pos rfl

theorem leads_knottedTree : Leads knottedTree ["b"] (.int 4, .dimension) := by
  have hliteral : OrderedMap.get? knottedTree ["c"] =
      some ⟨["c"], some .dimension, .literal (.int 4), "core", none⟩ := rfl
  exact .reference rfl rfl (.literal hliteral rfl)

theorem sound_knottedCache : Memo.Sound knottedTree (knottedCache.memoFor "light" knottedTree) := by
  intro path terminal hget
  rw [memoFor_knottedCache, OrderedMap.get?_cons, OrderedMap.get?_nil] at hget
  split at hget
  · rename_i hpath
    cases hget
    exact hpath ▸ leads_knottedTree
  · cases hget

theorem resolve_yields_knottedTree :
    Memo.Sound knottedTree (knottedCache.memoFor "light" knottedTree) ∧ knottedTree.WithinDigits ∧
      (knottedCache.resolve true knottedTree "light").1.stopped = none ∧
      Yields knottedTree knottedTree (knottedCache.resolve true knottedTree "light").1.resolved ∧
      ∃ e, (knottedCache.resolve false knottedTree "light").1.stopped = some (.error e) := by
  obtain ⟨_, hwithin, _⟩ := resolve_yields knottedCache knottedTree "light" sound_knottedCache
  obtain ⟨hstopped, hyields, _, hstrict⟩ := hwithin withinDigits_knottedTree
  have hdangling : ∃ entry ∈ knottedTree, ∀ terminal, ¬ Leads knottedTree entry.1 terminal := by
    refine ⟨(["d"], ⟨["d"], none, .reference ["x"], "core", none⟩), by simp [knottedTree], ?_⟩
    intro terminal hleads
    cases hleads with
    | literal hget hvalue => cases hget; cases hvalue
    | reference hget hvalue hrest =>
      cases hget
      cases hvalue
      cases hrest with
      | literal hget' _ | reference hget' _ _ => cases hget'
  exact ⟨sound_knottedCache, withinDigits_knottedTree, hstopped, hyields, hstrict hdangling⟩

/-- An integer that has one digit more than are written. -/
def longInteger : Int := 10 ^ Json.maxIntegerDigits

/-- A tree with a literal of too many digits. -/
def longTree : TokenTree :=
  [(["big"], ⟨["big"], some .number, .literal (.int longInteger), "base", none⟩)]

theorem get?_longTree : OrderedMap.get? longTree ["big"] =
    some ⟨["big"], some .number, .literal (.int longInteger), "base", none⟩ := rfl

theorem not_withinDigits_longTree : ¬ longTree.WithinDigits := by
  intro h
  exact absurd (h _ List.mem_cons_self longInteger rfl) (by simp [longInteger, Int.natAbs_pow])

/-- All paths of a tree with a long literal lead to a literal, and yet neither a gathering nor a
strict call yields any of them. -/
theorem long_literal_is_not_resolved :
    (∀ entry ∈ longTree, ∃ terminal, Leads longTree entry.1 terminal) ∧
      ∀ collect, (empty.resolve collect longTree "light").1.resolved = [] ∧
        (empty.resolve collect longTree "light").1.stopped =
          some (.breakdown .integerTooLong) := by
  refine ⟨fun entry hmem => ?_, fun collect => ?_⟩
  · cases List.mem_singleton.mp hmem
    exact ⟨_, .literal rfl rfl⟩
  · rw [resolve_of_not_isRenderable
      ((TokenTree.not_withinDigits_iff longTree).mp not_withinDigits_longTree)]
    exact ⟨rfl, rfl⟩

end ResolutionCache

end DesignTokens
