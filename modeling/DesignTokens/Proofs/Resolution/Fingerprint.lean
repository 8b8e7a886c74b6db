import DesignTokens.Proofs.Json.Digits
import DesignTokens.Proofs.Resolution.Pass
/-!
# Trees without a fingerprint

A tree has a canonical text, and with it a fingerprint, exactly if no token of it has an integer with
too many digits.  Resolving a tree without a fingerprint breaks down before anything is bound, looked
up or remembered.
-/

set_option autoImplicit false

namespace DesignTokens

/-! ## Trees that have a canonical text -/

theorem Json.lt_pow_maxIntegerDigits {n : Nat} (h : n < 10) : n < 10 ^ maxIntegerDigits :=
  Nat.lt_of_lt_of_le h (Nat.pow_le_pow_right (n := 10) (by decide) (by decide : 1 ≤ _))

theorem Json.areRenderable_iff (items : List Json) :
    areRenderable items = true ↔ ∀ item ∈ items, item.isRenderable = true := by
  induction items with
  | nil => simp [areRenderable]
  | cons item items ih => simp [areRenderable, ih]

/-- A path is made of texts, so all of it is written. -/
theorem TokenPath.areRenderable_json (path : TokenPath) :
    Json.areRenderable (path.map .str) = true := by
  rw [Json.areRenderable_iff]
  intro item hitem
  obtain ⟨key, _, rfl⟩ := List.mem_map.mp hitem
  rfl

/-- What may be too long in a token is an integer that is its literal. -/
theorem Token.isRenderable_canonicalJson_iff (token : Token) :
    token.canonicalJson.isRenderable = true ↔
      ∀ n : Int, token.value = .literal (.int n) → n.natAbs < 10 ^ Json.maxIntegerDigits := by
  have hvalue : token.canonicalJson.isRenderable = token.value.canonicalJson.isRenderable := by
    have hpath : (Json.arr (token.path.map .str)).isRenderable = true := by
      rw [Json.isRenderable, TokenPath.areRenderable_json]
    rw [Token.canonicalJson, Json.isRenderable]
    cases token.type <;>
      · simp only [Json.haveRenderable, hpath, Bool.true_and, Bool.and_true]
        rfl
  rw [hvalue]
  cases token.value with
  | reference target =>
    simp [TokenValue.canonicalJson, Json.isRenderable, Json.haveRenderable,
      TokenPath.areRenderable_json]
  | literal value =>
    cases value <;>
      simp [TokenValue.canonicalJson, Json.isRenderable, Json.haveRenderable, Scalar.toJson,
        Json.withinDigits_iff]

namespace TokenTree

variable {tree : TokenTree}

/-- No token of a tree has an integer with too many digits. -/
def WithinDigits (tree : TokenTree) : Prop :=
  ∀ entry ∈ tree, ∀ n : Int,
    entry.2.value = .literal (.int n) → n.natAbs < 10 ^ Json.maxIntegerDigits

/-- A tree has a canonical text exactly if no token of it has an integer with too many digits. -/
theorem isRenderable_iff (tree : TokenTree) : tree.isRenderable = true ↔ tree.WithinDigits := by
  unfold isRenderable canonicalJson Json.isRenderable
  rw [Json.areRenderable_iff, List.forall_mem_map]
  exact forall₂_congr fun entry _ => Token.isRenderable_canonicalJson_iff entry.2

theorem not_withinDigits_iff (tree : TokenTree) :
    ¬ tree.WithinDigits ↔ tree.isRenderable = false := by
  rw [← isRenderable_iff, Bool.not_eq_true]

theorem canonical_eq_ok_iff {text : String} :
    tree.canonical = .ok text ↔ tree.isRenderable = true ∧ tree.text = text := by
  unfold canonical
  split <;> simp [*]

theorem fingerprint_eq_ok_iff {fingerprint : String} :
    tree.fingerprint = .ok fingerprint ↔
      tree.isRenderable = true ∧ digestOf tree.text = fingerprint := by
  unfold TokenTree.fingerprint canonical
  split <;> simp [Except.map, *]

theorem fingerprint_eq_error_iff {cause : Breakdown} :
    tree.fingerprint = .error cause ↔ tree.isRenderable = false ∧ cause = .integerTooLong := by
  unfold TokenTree.fingerprint canonical
  split <;> simp [Except.map, eq_comm, *]

theorem fingerprint_of_isRenderable (h : tree.isRenderable = true) :
    tree.fingerprint = .ok (digestOf tree.text) :=
  fingerprint_eq_ok_iff.mpr ⟨h, rfl⟩

theorem fingerprint_of_not_isRenderable (h : tree.isRenderable = false) :
    tree.fingerprint = .error .integerTooLong :=
  fingerprint_eq_error_iff.mpr ⟨h, rfl⟩

end TokenTree

/-- No token of any mode has an integer with too many digits. -/
def Cascade.WithinDigits (composed : ByMode TokenTree) : Prop :=
  ∀ entry ∈ composed, entry.2.WithinDigits

theorem Cascade.withinDigits_iff (composed : ByMode TokenTree) :
    WithinDigits composed ↔ ∀ entry ∈ composed, entry.2.isRenderable = true :=
  forall₂_congr fun entry _ => entry.2.isRenderable_iff.symm

/-! ## Calls on a cache -/

namespace ResolutionCache

variable {tree : TokenTree}

theorem hold_of_isRenderable (h : tree.isRenderable = true) (cache : ResolutionCache)
    (mode : String) (memo : Memo) :
    cache.hold mode tree memo =
      OrderedMap.set cache.modes mode ⟨TokenTree.digestOf tree.text, memo⟩ := by
  unfold hold
  rw [TokenTree.fingerprint_of_isRenderable h]

theorem resolve_of_isRenderable (h : tree.isRenderable = true) (cache : ResolutionCache)
    (collect : Bool) (mode : String) :
    cache.resolve collect tree mode = cache.passOver collect tree mode := by
  unfold resolve
  rw [TokenTree.fingerprint_of_isRenderable h]

/-- A tree that has no fingerprint is not passed over, and the cache is left as it is. -/
theorem resolve_of_not_isRenderable (h : tree.isRenderable = false) (cache : ResolutionCache)
    (collect : Bool) (mode : String) :
    cache.resolve collect tree mode = (.brokenDown .integerTooLong, cache) := by
  unfold resolve
  rw [TokenTree.fingerprint_of_not_isRenderable h]

/-- Errors are found in trees with a fingerprint only. -/
theorem isRenderable_of_mem_errors {cache : ResolutionCache} {collect : Bool} {mode : String}
    {e : BuildError} (h : e ∈ (cache.resolve collect tree mode).1.errors) :
    tree.isRenderable = true := by
  rw [← Bool.not_eq_false]
  intro hbeyond
  rw [resolve_of_not_isRenderable hbeyond] at h
  cases h

/-- What a call yields, it has found by passing over a tree with a fingerprint. -/
theorem mem_resolved_passOver {cache : ResolutionCache} {collect : Bool} {mode : String}
    {entry : TokenPath × ResolvedToken} (h : entry ∈ (cache.resolve collect tree mode).1.resolved) :
    entry ∈ (cache.passOver collect tree mode).1.resolved := by
  unfold resolve at h
  split at h
  · cases h
  · exact h

/-- A call that is not stopped has passed over a tree with a fingerprint. -/
theorem isRenderable_of_stopped_eq_none {cache : ResolutionCache} {collect : Bool} {mode : String}
    (h : (cache.resolve collect tree mode).1.stopped = none) : tree.isRenderable = true := by
  rw [← Bool.not_eq_false]
  intro hlong
  rw [resolve_of_not_isRenderable hlong] at h
  cases h

/-- A gathering call on a tree with a fingerprint goes through. -/
theorem stopped_resolve_true (h : tree.isRenderable = true) (cache : ResolutionCache)
    (mode : String) : (cache.resolve true tree mode).1.stopped = none := by
  rw [resolve_of_isRenderable h]
  exact Resolution.stopped_of_collect

/-- A call is stopped by the error of a token, or for want of a fingerprint. -/
theorem stopped_resolve_ne_collected {cache : ResolutionCache} {collect : Bool} {mode : String}
    {failure : Failure} (h : (cache.resolve collect tree mode).1.stopped = some failure)
    (errors : List BuildError) : failure ≠ .collected errors := by
  cases hrenderable : tree.isRenderable with
  | false =>
    rw [resolve_of_not_isRenderable hrenderable] at h
    cases h
    exact nofun
  | true =>
    cases collect with
    | true =>
      rw [stopped_resolve_true hrenderable] at h
      cases h
    | false =>
      rw [resolve_of_isRenderable hrenderable] at h
      unfold passOver at h
      simp only at h
      rw [(Resolution.stopped_eq_head?_errors ..).1, Option.map_eq_some_iff] at h
      obtain ⟨_, _, rfl⟩ := h
      exact nofun

theorem resolvePath_of_isRenderable (h : tree.isRenderable = true) (cache : ResolutionCache)
    (mode : String) (path : TokenPath) :
    cache.resolvePath tree mode path = ((cache.lookUp tree mode path).1.mapError Failure.error,
      (cache.lookUp tree mode path).2) := by
  unfold resolvePath
  rw [TokenTree.fingerprint_of_isRenderable h]

theorem resolvePath_of_not_isRenderable (h : tree.isRenderable = false) (cache : ResolutionCache)
    (mode : String) (path : TokenPath) :
    cache.resolvePath tree mode path = (.error (.breakdown .integerTooLong), cache) := by
  unfold resolvePath
  rw [TokenTree.fingerprint_of_not_isRenderable h]

end ResolutionCache

end DesignTokens
