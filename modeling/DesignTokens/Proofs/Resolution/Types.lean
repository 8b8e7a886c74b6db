import DesignTokens.Css.Value
import DesignTokens.Proofs.Cascade
import DesignTokens.Proofs.Resolution.Yields
/-!
# Types of references

A reference without a type of its own is resolved with the type of the literal at which its chain
ends.  A reference in between may declare another type; then what refers to it without a type has
its value, but not its type, and a text may be written differently for the two.
-/

set_option autoImplicit false

namespace DesignTokens

namespace Css

/-! ## Types that write alike -/

/-- Texts of a type are written as they are, but for their blanks. -/
def AddsNothing (type : TokenType) : Prop :=
  type ≠ .fontFamily ∧ type ≠ .fontWeight

theorem renderText_of_addsNothing {type : TokenType} (h : AddsNothing type) (text : String) :
    renderText text type = normalizeText text := by
  obtain ⟨hfamily, hweight⟩ := h
  cases type with
  | fontFamily => exact absurd rfl hfamily
  | fontWeight => exact absurd rfl hweight
  | _ => rfl

/-- A literal is written alike for two types, unless it is a text and one of them adds to texts. -/
theorem renderValue_eq_of_types {value : Scalar} {type other : TokenType}
    (h : type = other ∨ (∀ text, value ≠ .str text) ∨ AddsNothing type ∧ AddsNothing other) :
    renderValue value type = renderValue value other := by
  rcases h with rfl | hvalue | ⟨htype, hother⟩
  · rfl
  · cases value with
    | str text => exact absurd rfl (hvalue text)
    | bool b | int n | float x => rfl
  · cases value with
    | str text =>
      calc renderText text type = normalizeText text := renderText_of_addsNothing htype text
        _ = renderText text other := (renderText_of_addsNothing hother text).symm
    | bool b | int n | float x => rfl

end Css

namespace Resolution

variable {tree : TokenTree} {entries : List (TokenPath × Token)} {resolved : ResolvedTree}

/-- Under a path, a resolved tree has the resolved form of the first entry that has this path, if it
leads to a literal. -/
theorem Yields.get?_eq_some_iff (h : Yields tree entries resolved) {path : TokenPath}
    {token : ResolvedToken} :
    OrderedMap.get? resolved path = some token ↔
      ∃ raw terminal, OrderedMap.get? entries path = some raw ∧ Leads tree path terminal ∧
        token = resolvedToken path raw terminal := by
  induction h with
  | nil => simp
  | @found first raw terminal entries resolved hleads _ ih =>
    rw [OrderedMap.get?_cons, OrderedMap.get?_cons]
    by_cases hfirst : first = path
    · subst hfirst
      simp only [if_true, Option.some.injEq]
      constructor
      · rintro rfl
        exact ⟨raw, terminal, rfl, hleads, rfl⟩
      · rintro ⟨raw', terminal', rfl, hother, rfl⟩
        rw [hother.unique hleads]
    · simp only [hfirst, if_false]
      exact ih
  | @leftOut first raw entries resolved hnot _ ih =>
    rw [OrderedMap.get?_cons]
    by_cases hfirst : first = path
    · subst hfirst
      rw [ih]
      constructor
      · rintro ⟨_, terminal, _, hleads, _⟩
        exact absurd hleads (hnot terminal)
      · rintro ⟨_, terminal, _, hleads, _⟩
        exact absurd hleads (hnot terminal)
    · simp only [hfirst, if_false]
      exact ih

/-! ## Untyped references -/

/-- What a reference that declares no type has in common with the token that it refers to: the
value, and the type of the literal, which is the token's own one exactly if it declares no other. -/
structure TakesAfter (tree : TokenTree) (target : TokenPath) (shown : ResolvedToken) (raw : Token)
    (found : ResolvedToken) : Prop where
  leads : Leads tree target (shown.value, shown.type)
  value : found.value = shown.value
  type : found.type = raw.type.getD shown.type
  type_iff : shown.type = found.type ↔ raw.type = none ∨ raw.type = some shown.type
  written : (shown.type = found.type ∨ (∀ text, shown.value ≠ .str text) ∨
      Css.AddsNothing shown.type ∧ Css.AddsNothing found.type) →
    Css.renderValue shown.value shown.type = Css.renderValue found.value found.type

theorem takesAfter_resolvedToken {path target : TokenPath} {token raw : Token}
    {terminal : Terminal} (htype : token.type = none) (hleads : Leads tree target terminal) :
    TakesAfter tree target (resolvedToken path token terminal) raw
      (resolvedToken target raw terminal) := by
  have hshown : (resolvedToken path token terminal).type = terminal.2 := by
    simp [resolvedToken, htype]
  have hfound : (resolvedToken target raw terminal).type = raw.type.getD terminal.2 := rfl
  refine ⟨hshown ▸ hleads, rfl, hshown ▸ hfound, ?_, Css.renderValue_eq_of_types⟩
  rw [hshown, hfound]
  cases raw.type with
  | none => simp
  | some own => simp [eq_comm]

end Resolution

namespace ResolutionCache

open Resolution

variable {tree : TokenTree} {mode : String}

/-- Resolving a tree without being stopped yields the entries that lead to a literal. -/
theorem yields_resolve {cache : ResolutionCache} {collect : Bool}
    (hmemo : Memo.Sound tree (cache.memoFor mode tree))
    (hdone : (cache.resolve collect tree mode).1.stopped = none) :
    Yields tree tree (cache.resolve collect tree mode).1.resolved := by
  have hsound : (cache.startPass mode tree).Sound tree := Pass.sound_of_memo hmemo 0 0
  have hyields := hsound.yields mode tree
  have hrenderable := isRenderable_of_stopped_eq_none hdone
  rw [resolve_of_isRenderable hrenderable] at hdone ⊢
  cases collect with
  | true => exact hyields
  | false =>
    have hsame := (stopped_eq_head?_errors tree mode (cache.startPass mode tree) tree).2 hdone
    rw [hsame] at hyields
    exact hyields

/-- A reference without a type that is resolved takes after the token that it refers to, which is
resolved as well: both have the value of the literal at the end of the chain, and the reference has
the type of that literal.  This is the type of the token if it declares none or the same. -/
theorem untyped_reference_takes_after (cache : ResolutionCache) (collect : Bool) (tree : TokenTree)
    (mode : String) (path target : TokenPath) (token : Token) (shown : ResolvedToken)
    (hmemo : Memo.Sound tree (cache.memoFor mode tree))
    (hdone : (cache.resolve collect tree mode).1.stopped = none)
    (hget : OrderedMap.get? tree path = some token) (htype : token.type = none)
    (hvalue : token.value = .reference target)
    (hshown : OrderedMap.get? (cache.resolve collect tree mode).1.resolved path = some shown) :
    ∃ raw found, OrderedMap.get? tree target = some raw ∧
      OrderedMap.get? (cache.resolve collect tree mode).1.resolved target = some found ∧
      TakesAfter tree target shown raw found := by
  have hyields := yields_resolve hmemo hdone
  obtain ⟨raw, terminal, hraw, hleads, rfl⟩ := hyields.get?_eq_some_iff.mp hshown
  rw [hget, Option.some.injEq] at hraw
  subst hraw
  have hfollows : Follows tree path target := ⟨token, hget, hvalue⟩
  have hrest : Leads tree target terminal := hfollows.leads_iff.mp hleads
  obtain ⟨raw, hraw⟩ := Option.isSome_iff_exists.mp
    ((OrderedMap.get?_isSome_iff tree target).mpr hrest.mem_keys)
  exact ⟨raw, resolvedToken target raw terminal, hraw,
    hyields.get?_eq_some_iff.mpr ⟨raw, terminal, hraw, hrest, rfl⟩,
    takesAfter_resolvedToken htype hrest⟩

/-- The reference has the type of the literal, although the color between them has another one. -/
theorem untyped_reference_takes_after_knottedTree :
    Memo.Sound knottedTree (knottedCache.memoFor "light" knottedTree) ∧
      (knottedCache.resolve true knottedTree "light").1.stopped = none ∧
      OrderedMap.get? knottedTree ["a"] = some ⟨["a"], none, .reference ["b"], "base", none⟩ ∧
      OrderedMap.get? (knottedCache.resolve true knottedTree "light").1.resolved ["a"] =
        some ⟨["a"], .dimension, .int 4, "base"⟩ ∧
      ∃ raw found, OrderedMap.get? knottedTree ["b"] = some raw ∧
        OrderedMap.get? (knottedCache.resolve true knottedTree "light").1.resolved ["b"] =
          some found ∧
        TakesAfter knottedTree ["b"] ⟨["a"], .dimension, .int 4, "base"⟩ raw found := by
  have hdone : (knottedCache.resolve true knottedTree "light").1.stopped = none :=
    stopped_resolve_true isRenderable_knottedTree knottedCache "light"
  have hget : OrderedMap.get? knottedTree ["a"] =
      some ⟨["a"], none, .reference ["b"], "base", none⟩ := rfl
  have hshown : OrderedMap.get? (knottedCache.resolve true knottedTree "light").1.resolved ["a"] =
      some ⟨["a"], .dimension, .int 4, "base"⟩ :=
    (yields_resolve sound_knottedCache hdone).get?_eq_some_iff.mpr
      ⟨_, _, hget, .reference hget rfl leads_knottedTree, rfl⟩
  exact ⟨sound_knottedCache, hdone, hget, hshown,
    untyped_reference_takes_after knottedCache true knottedTree "light" ["a"] ["b"] _ _
      sound_knottedCache hdone hget rfl rfl hshown⟩

/-- A layer with a font family that refers to a text, and a reference to it without a type. -/
def fontLayer : Layer :=
  ⟨"base", none, "tokens", true, "base",
    [⟨["Body"], none, .reference ["Heading"], "base", none⟩,
      ⟨["Heading"], some .fontFamily, .reference ["Base"], "base", none⟩,
      ⟨["Base"], some .string, .literal (.str "Open Sans"), "base", none⟩]⟩

/-- The reference refers to a font family, but is resolved as a text, and written without quotes. -/
theorem untyped_reference_loses_fontFamily :
    OrderedMap.get? (Cascade.compose [fontLayer] "light") ["Body"] =
        some ⟨["Body"], none, .reference ["Heading"], "base", none⟩ ∧
      OrderedMap.get? (empty.resolve false (Cascade.compose [fontLayer] "light") "light").1.resolved
        ["Body"] = some ⟨["Body"], .string, .str "Open Sans", "base"⟩ ∧
      OrderedMap.get? (empty.resolve false (Cascade.compose [fontLayer] "light") "light").1.resolved
        ["Heading"] = some ⟨["Heading"], .fontFamily, .str "Open Sans", "base"⟩ ∧
      Css.renderValue (.str "Open Sans") .string = "Open Sans" ∧
      Css.renderValue (.str "Open Sans") .fontFamily = "\"Open Sans\"" := by
  have htree : Cascade.compose [fontLayer] "light" =
      [(["Body"], ⟨["Body"], none, .reference ["Heading"], "base", none⟩),
        (["Heading"], ⟨["Heading"], some .fontFamily, .reference ["Base"], "base", none⟩),
        (["Base"], ⟨["Base"], some .string, .literal (.str "Open Sans"), "base", none⟩)] := by
    decide
  have hmemo (tree : TokenTree) : empty.memoFor "light" tree = [] := rfl
  have hrenderable : (Cascade.compose [fontLayer] "light").isRenderable = true := by
    rw [htree]
    decide
  rw [resolve_of_isRenderable hrenderable]
  unfold passOver startPass
  rw [hmemo, htree]
  refine ⟨rfl, ?_, ?_, by decide, by decide⟩
  · simp [resolveEntries, Pass.resolvePath, walk, OrderedMap.get?, Pass.remember, resolvedToken,
      OrderedMap.set]
  · simp [resolveEntries, Pass.resolvePath, walk, OrderedMap.get?, Pass.remember, resolvedToken,
      OrderedMap.set]

end ResolutionCache

end DesignTokens
