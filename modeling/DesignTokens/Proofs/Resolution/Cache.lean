import DesignTokens.Proofs.Canonical
import DesignTokens.Proofs.Resolution.Pass
import Mathlib.Tactic.Tauto
/-!
# The resolution cache is invisible

What is remembered of a mode is true of every tree that has the fingerprint it is held under.  Every
call keeps this, also one that fails on the way, so that no call on a shared cache can be told from
the same call on a new one.  Fingerprints stand for canonical texts; that no two of the texts in use
share a fingerprint is an assumption about the digest.
-/

set_option autoImplicit false

namespace DesignTokens

/-- A call on a cache. -/
inductive ResolutionCall where
  | resolve (collect : Bool) (tree : TokenTree) (mode : String)
  | resolvePath (tree : TokenTree) (mode : String) (path : TokenPath)
  | clear

/-- What a caller gets back. -/
inductive ResolutionReply where
  /-- The resolved tree, and the errors that were gathered. -/
  | resolved (tree : ResolvedTree) (errors : List BuildError)
  /-- The value of a single path. -/
  | value (value : Scalar)
  /-- The failure that stopped the call. -/
  | failed (failure : Failure)
  | done

namespace ResolutionCall

/-- The tree that a call resolves. -/
def tree? : ResolutionCall → Option TokenTree
  | .resolve _ tree _ => some tree
  | .resolvePath tree _ _ => some tree
  | .clear => none

/-- The trees of a history of calls. -/
def trees (history : List ResolutionCall) : List TokenTree :=
  history.filterMap tree?

end ResolutionCall

namespace ResolutionCache

/-- What a call gives back, and the cache that it leaves. -/
def answer (cache : ResolutionCache) : ResolutionCall → ResolutionReply × ResolutionCache
  | .resolve collect tree mode =>
    let (outcome, after) := cache.resolve collect tree mode
    match outcome.stopped with
    | some failure => (.failed failure, after)
    | none => (.resolved outcome.resolved outcome.errors, after)
  | .resolvePath tree mode path =>
    let (result, after) := cache.resolvePath tree mode path
    match result with
    | .ok value => (.value value, after)
    | .error failure => (.failed failure, after)
  | .clear => (.done, cache.clear)

/-- The cache that a history of calls leaves. -/
def after (cache : ResolutionCache) (history : List ResolutionCall) : ResolutionCache :=
  history.foldl (fun cache call => (cache.answer call).2) cache

/-! ## What is remembered is true -/

/-- Trees as the cascade composes them, of which no two that differ in their canonical text have
the same fingerprint. -/
structure Distinguished (trees : List TokenTree) : Prop where
  keyed : ∀ tree ∈ trees, tree.Keyed
  canonical : ∀ first ∈ trees, ∀ second ∈ trees,
    first.fingerprint = second.fingerprint → first.canonical = second.canonical

/-- A single tree can be mistaken for no other. -/
theorem distinguished_singleton {tree : TokenTree} (h : tree.Keyed) : Distinguished [tree] := by
  refine ⟨fun first hfirst => ?_, fun first hfirst second hsecond _ => ?_⟩
  · rwa [List.mem_singleton.mp hfirst]
  · rw [List.mem_singleton.mp hfirst, List.mem_singleton.mp hsecond]

/-- What is held under a fingerprint is true of the trees that have it. -/
def Sound (trees : List TokenTree) (cache : ResolutionCache) : Prop :=
  ∀ mode held, OrderedMap.get? cache.modes mode = some held →
    ∀ tree ∈ trees, tree.fingerprint = .ok held.fingerprint → Resolution.Memo.Sound tree held.memo

/-- What is held for a mode under a fingerprint is true of the mode's trees that have it. -/
def SoundIn (trees : String → List TokenTree) (cache : ResolutionCache) : Prop :=
  ∀ mode held, OrderedMap.get? cache.modes mode = some held →
    ∀ tree ∈ trees mode, tree.fingerprint = .ok held.fingerprint →
      Resolution.Memo.Sound tree held.memo

/-- What is true of a tree is true of every other one with its fingerprint. -/
theorem Distinguished.memo_sound {trees : List TokenTree} (h : Distinguished trees)
    {tree other : TokenTree} (htree : tree ∈ trees) (hother : other ∈ trees) {fingerprint : String}
    (hfingerprint : tree.fingerprint = .ok fingerprint)
    (hother' : other.fingerprint = .ok fingerprint) {memo : Memo}
    (hmemo : Resolution.Memo.Sound tree memo) : Resolution.Memo.Sound other memo := by
  have hcanonical := h.canonical tree htree other hother (hfingerprint.trans hother'.symm)
  have htext : tree.canonical = .ok tree.text :=
    TokenTree.canonical_eq_ok_iff.mpr ⟨(TokenTree.fingerprint_eq_ok_iff.mp hfingerprint).1, rfl⟩
  have hsame : other.text = tree.text :=
    (TokenTree.canonical_eq_ok_iff.mp (hcanonical ▸ htext)).2
  intro path terminal hget
  exact (hmemo path terminal hget).of_text (h.keyed tree htree) (h.keyed other hother) hsame.symm

section ByMode

variable {trees : String → List TokenTree} {cache : ResolutionCache} {tree : TokenTree}
  {mode : String}

theorem soundIn_empty (trees : String → List TokenTree) : SoundIn trees empty :=
  fun _ _ h => by cases h

/-- Forgetting everything leaves nothing untrue. -/
theorem soundIn_clear (trees : String → List TokenTree) (cache : ResolutionCache) :
    SoundIn trees cache.clear :=
  fun _ _ h => by cases h

theorem SoundIn.memoFor (h : SoundIn trees cache) (htree : tree ∈ trees mode) :
    Resolution.Memo.Sound tree (cache.memoFor mode tree) := by
  unfold ResolutionCache.memoFor
  split
  · rename_i held fingerprint hget hfingerprint
    split
    · rename_i hheld
      exact h mode held hget tree htree (hheld ▸ hfingerprint)
    · exact Resolution.Memo.sound_nil tree
  · exact Resolution.Memo.sound_nil tree

/-- A call starts from true memories. -/
theorem SoundIn.startPass (h : SoundIn trees cache) (htree : tree ∈ trees mode) :
    (cache.startPass mode tree).Sound tree :=
  Resolution.Pass.sound_of_memo (h.memoFor htree) 0 0

/-- Holding true memories under the fingerprint of their tree keeps a cache true. -/
theorem SoundIn.hold (h : SoundIn trees cache) (hdistinguished : Distinguished (trees mode))
    (htree : tree ∈ trees mode) {memo : Memo} (hmemo : Resolution.Memo.Sound tree memo)
    {after : ResolutionCache} (hafter : after.modes = cache.hold mode tree memo) :
    SoundIn trees after := by
  intro key held hget other hother hfingerprint
  rw [hafter] at hget
  unfold ResolutionCache.hold at hget
  split at hget
  · rename_i fingerprint hheld
    rw [OrderedMap.get?_set] at hget
    by_cases hkey : mode = key
    · subst hkey
      rw [if_pos rfl, Option.some.injEq] at hget
      subst hget
      exact hdistinguished.memo_sound htree hother hheld hfingerprint hmemo
    · rw [if_neg hkey] at hget
      exact h key held hget other hother hfingerprint
  · exact h key held hget other hother hfingerprint

theorem SoundIn.bind (h : SoundIn trees cache) (hdistinguished : Distinguished (trees mode))
    (htree : tree ∈ trees mode) : SoundIn trees (cache.bind mode tree) :=
  h.hold hdistinguished htree (h.memoFor htree) rfl

theorem SoundIn.absorb (h : SoundIn trees cache) (hdistinguished : Distinguished (trees mode))
    (htree : tree ∈ trees mode) {pass : Resolution.Pass} (hpass : pass.Sound tree) :
    SoundIn trees (cache.absorb mode tree pass) :=
  h.hold hdistinguished htree hpass.memo rfl

/-- Resolving a tree keeps what is remembered true, whether it succeeds or fails. -/
theorem SoundIn.resolve (h : SoundIn trees cache) (hdistinguished : Distinguished (trees mode))
    (htree : tree ∈ trees mode) (collect : Bool) :
    SoundIn trees (cache.resolve collect tree mode).2 := by
  unfold ResolutionCache.resolve
  split
  · exact h
  · exact (h.bind hdistinguished htree).absorb hdistinguished htree
      ((h.startPass htree).after_resolveEntries collect)

/-- So does resolving a single path. -/
theorem SoundIn.resolvePath (h : SoundIn trees cache) (hdistinguished : Distinguished (trees mode))
    (htree : tree ∈ trees mode) (path : TokenPath) :
    SoundIn trees (cache.resolvePath tree mode path).2 := by
  have hbound := h.bind hdistinguished htree
  have habsorbed := hbound.absorb hdistinguished htree
    ((h.startPass htree).after_resolvePath mode path)
  unfold ResolutionCache.resolvePath
  split
  · exact h
  · unfold lookUp
    simp only
    split
    · split <;> exact habsorbed
    · exact hbound

end ByMode

variable {trees : List TokenTree} {cache : ResolutionCache} {tree : TokenTree} {mode : String}

theorem sound_empty (trees : List TokenTree) : Sound trees empty :=
  fun _ _ h => by cases h

/-- Forgetting everything leaves nothing untrue. -/
theorem sound_clear (trees : List TokenTree) (cache : ResolutionCache) :
    Sound trees cache.clear :=
  fun _ _ h => by cases h

/-- Trees that are the same for all modes are trees of each mode. -/
theorem Sound.soundIn (h : Sound trees cache) : SoundIn (fun _ => trees) cache :=
  h

/-- A call starts from true memories. -/
theorem Sound.startPass (h : Sound trees cache) (mode : String) (htree : tree ∈ trees) :
    (cache.startPass mode tree).Sound tree :=
  h.soundIn.startPass htree

/-- Every call keeps what is remembered true, whether it succeeds or fails. -/
theorem Sound.answer (h : Sound trees cache) (hdistinguished : Distinguished trees)
    {call : ResolutionCall} (hcall : ∀ tree ∈ call.tree?, tree ∈ trees) :
    Sound trees (cache.answer call).2 := by
  cases call with
  | resolve collect tree mode =>
    have hafter : Sound trees (cache.resolve collect tree mode).2 :=
      h.soundIn.resolve hdistinguished (hcall tree rfl) collect
    unfold ResolutionCache.answer
    simp only
    split <;> exact hafter
  | resolvePath tree mode path =>
    have hafter : Sound trees (cache.resolvePath tree mode path).2 :=
      h.soundIn.resolvePath hdistinguished (hcall tree rfl) path
    unfold ResolutionCache.answer
    simp only
    split <;> exact hafter
  | clear => exact sound_clear trees cache

/-- So does every history of calls. -/
theorem Sound.after (h : Sound trees cache) (hdistinguished : Distinguished trees)
    {history : List ResolutionCall}
    (hhistory : ∀ call ∈ history, ∀ tree ∈ call.tree?, tree ∈ trees) :
    Sound trees (cache.after history) := by
  induction history generalizing cache with
  | nil => exact h
  | cons call later ih =>
    exact ih (h.answer hdistinguished (hhistory call List.mem_cons_self))
      fun call' hmem => hhistory call' (List.mem_cons_of_mem _ hmem)

/-- What a cache remembers of a tree after a history of calls is true of it, if no tree of the
history is mistaken for it. -/
theorem memo_sound_after (history : List ResolutionCall) (mode : String)
    (h : Distinguished (tree :: ResolutionCall.trees history)) :
    Resolution.Memo.Sound tree ((empty.after history).memoFor mode tree) := by
  have hsound : Sound (tree :: ResolutionCall.trees history) (empty.after history) := by
    refine (sound_empty _).after h fun call hcall tree' htree' => List.mem_cons_of_mem _ ?_
    exact List.mem_filterMap.mpr ⟨call, hcall, htree'⟩
  exact (hsound.startPass mode List.mem_cons_self).memo

/-! ## No call can be told from one on a new cache -/

/-- A tree in which one path refers to another one that has no token. -/
def danglingTree : TokenTree :=
  [(["a"], ⟨["a"], none, .reference ["b"], "base", none⟩)]

/-- The same tree after the missing token was added. -/
def mendedTree : TokenTree :=
  danglingTree ++ [(["b"], ⟨["b"], some .color, .literal (.str "red"), "base", none⟩)]

theorem fingerprint_danglingTree_ne : danglingTree.fingerprint ≠ mendedTree.fingerprint := by
  have hdigest : TokenTree.digestOf danglingTree.text ≠ TokenTree.digestOf mendedTree.text := by
    decide +kernel
  rw [TokenTree.fingerprint_of_isRenderable rfl, TokenTree.fingerprint_of_isRenderable rfl]
  exact fun h => hdigest (Except.ok.inj h)

/-- The tree before and after it is mended can be told from each other. -/
theorem distinguished_of_mending {trees : List TokenTree}
    (h : ∀ tree ∈ trees, tree = danglingTree ∨ tree = mendedTree) : Distinguished trees := by
  refine ⟨fun tree htree => ?_, fun first hfirst second hsecond heq => ?_⟩
  · rcases h tree htree with rfl | rfl
    · intro entry hmem
      rw [List.mem_singleton.mp hmem]
    · intro entry hmem
      simp only [mendedTree, danglingTree, List.cons_append, List.nil_append, List.mem_cons,
        List.not_mem_nil, or_false] at hmem
      rcases hmem with rfl | rfl <;> rfl
  · rcases h first hfirst with rfl | rfl <;> rcases h second hsecond with rfl | rfl
    · rfl
    · exact absurd heq fingerprint_danglingTree_ne
    · exact absurd heq.symm fingerprint_danglingTree_ne
    · rfl

end ResolutionCache

end DesignTokens
