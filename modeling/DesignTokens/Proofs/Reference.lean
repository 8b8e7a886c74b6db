import DesignTokens.Proofs.Dotted
import DesignTokens.Token.Value
/-!
# Reference expressions

A text refers if, apart from blanks around it, it is a pair of braces around pieces with dots
between them, none of which is blank or has a brace; it refers to the path of its pieces, without
the blanks around them.  The paths that texts refer to are just those whose expression is read back,
and every other text stands for itself.
-/

set_option autoImplicit false

namespace DesignTokens

/-- A path can be referred to if it is not empty, and its segments are plain and have no braces. -/
structure TokenPath.IsReferable (path : TokenPath) : Prop where
  ne_nil : path ≠ []
  plain : path.IsPlain
  unbraced : ∀ segment ∈ path, '{' ∉ segment.toList ∧ '}' ∉ segment.toList

namespace TokenValue

/-- A text is an expression of pieces, apart from the blanks around it. -/
structure IsExpression (s : String) (pieces : List String) : Prop where
  text : Text.trim s = "\x7b" ++ ".".intercalate pieces ++ "\x7d"
  ne_nil : pieces ≠ []
  undotted : ∀ piece ∈ pieces, '.' ∉ piece.toList
  unbraced : ∀ piece ∈ pieces, '{' ∉ piece.toList ∧ '}' ∉ piece.toList
  named : ∀ piece ∈ pieces, Text.allBlank piece = false

variable {s : String} {path : TokenPath} {pieces : List String} {cs inside : List Char}

/-! ## Braces -/

/-- What braces hold is found if it is not empty and has no braces itself. -/
theorem inner?_eq_some_iff : inner? cs = some inside ↔
    cs = '{' :: (inside ++ ['}']) ∧ inside ≠ [] ∧ '{' ∉ inside ∧ '}' ∉ inside := by
  have hany : (inside.isEmpty || inside.any fun c => c == '{' || c == '}') = false ↔
      inside ≠ [] ∧ '{' ∉ inside ∧ '}' ∉ inside := by
    rw [Bool.or_eq_false_iff, List.isEmpty_eq_false_iff, List.any_eq_false]
    simp only [Bool.or_eq_true, beq_iff_eq, not_or]
    refine and_congr_right fun _ => ⟨fun h => ?_, fun h c hmem => ?_⟩
    · exact ⟨fun hmem => (h _ hmem).1 rfl, fun hmem => (h _ hmem).2 rfl⟩
    · exact ⟨fun heq => h.1 (heq ▸ hmem), fun heq => h.2 (heq ▸ hmem)⟩
  rw [← hany]
  constructor
  · intro h
    unfold inner? at h
    split at h
    · rename_i rest
      split at h
      · rename_i hlast
        simp only at h
        split at h
        · cases h
        · rename_i hplain
          cases h
          rw [Bool.not_eq_true] at hplain
          rw [List.dropLast_append_getLast? _ hlast]
          exact ⟨rfl, hplain⟩
      · cases h
    · cases h
  · rintro ⟨rfl, hplain⟩
    simp only [inner?, List.getLast?_concat, List.dropLast_concat, hplain, Bool.false_eq_true,
      if_false]

/-! ## Reading -/

theorem toList_expression (inner : String) :
    ("\x7b" ++ inner ++ "\x7d").toList = '{' :: (inner.toList ++ ['}']) := by
  rw [String.toList_append, String.toList_append]
  rfl

theorem not_mem_intercalate_iff {c : Char} (hc : c ≠ '.') :
    c ∉ (".".intercalate pieces).toList ↔ ∀ piece ∈ pieces, c ∉ piece.toList := by
  have hdot : ".".toList = ['.'] := rfl
  rw [String.toList_intercalate, hdot]
  constructor
  · intro h piece hpiece hmem
    exact h (Lists.mem_intercalate_of_mem (List.mem_map_of_mem hpiece) hmem)
  · intro h hmem
    rcases Lists.mem_intercalate hmem with heq | ⟨part, hpart, hmem⟩
    · exact hc heq
    · obtain ⟨piece, hpiece, rfl⟩ := List.mem_map.mp hpart
      exact h piece hpiece hmem

theorem IsExpression.inner?_eq (h : IsExpression s pieces) :
    inner? (Text.trim s).toList = some (".".intercalate pieces).toList := by
  rw [h.text, toList_expression, inner?_eq_some_iff]
  have hopen := (not_mem_intercalate_iff (by decide)).mpr fun piece hpiece =>
    (h.unbraced piece hpiece).1
  have hclose := (not_mem_intercalate_iff (by decide)).mpr fun piece hpiece =>
    (h.unbraced piece hpiece).2
  -- A piece that is not blank has a character.
  obtain ⟨piece, hpiece⟩ := List.exists_mem_of_ne_nil pieces h.ne_nil
  obtain ⟨c, hc, _⟩ := List.all_eq_false.mp (h.named piece hpiece)
  have hmem : c ∈ (".".intercalate pieces).toList := by
    rw [String.toList_intercalate]
    exact Lists.mem_intercalate_of_mem (List.mem_map_of_mem hpiece) hc
  exact ⟨rfl, List.ne_nil_of_mem hmem, hopen, hclose⟩

theorem isExpression_of_inner?
    (h : inner? (Text.trim s).toList = some (".".intercalate pieces).toList)
    (hne : pieces ≠ []) (hdots : ∀ piece ∈ pieces, '.' ∉ piece.toList)
    (hnamed : ∀ piece ∈ pieces, Text.trim piece ≠ "") : IsExpression s pieces := by
  obtain ⟨htext, _, hopen, hclose⟩ := inner?_eq_some_iff.mp h
  rw [← toList_expression, String.toList_inj] at htext
  rw [not_mem_intercalate_iff (by decide)] at hopen hclose
  refine ⟨htext, hne, hdots, fun piece hpiece => ⟨hopen piece hpiece, hclose piece hpiece⟩,
    fun piece hpiece => ?_⟩
  rw [← Bool.not_eq_true, ← Text.trim_eq_empty_iff]
  exact hnamed piece hpiece

/-- A text refers to the pieces of which it is an expression, without the blanks around them. -/
theorem referenceTarget?_eq_some_iff : referenceTarget? s = some path ↔
    ∃ pieces, IsExpression s pieces ∧ pieces.map Text.trim = path := by
  unfold referenceTarget?
  constructor
  · intro h
    split at h
    · cases h
    · rename_i inside hinner
      simp only at h
      split at h
      · cases h
      · rename_i hnamed
        cases h
        obtain ⟨pieces, hne, hdots, hjoined, htarget⟩ := TokenPath.ofDotted_eq_iff.mp
          (rfl : TokenPath.ofDotted (String.ofList inside) = _)
        rw [← htarget] at hnamed
        refine ⟨pieces, isExpression_of_inner? ?_ hne hdots fun piece hpiece hblank => ?_, htarget⟩
        · rw [hinner, hjoined, String.toList_ofList]
        · exact hnamed (by simpa using ⟨piece, hpiece, hblank⟩)
  · rintro ⟨pieces, hexpression, rfl⟩
    have htarget : TokenPath.ofDotted (".".intercalate pieces) = pieces.map Text.trim :=
      TokenPath.ofDotted_eq_iff.mpr
        ⟨pieces, hexpression.ne_nil, hexpression.undotted, rfl, rfl⟩
    have hnamed : ¬ ((pieces.map Text.trim).any (· == "")) = true := by
      simp only [List.any_eq_true, List.mem_map, beq_iff_eq, not_exists, not_and]
      rintro _ ⟨piece, hpiece, rfl⟩ hblank
      rw [Text.trim_eq_empty_iff, hexpression.named piece hpiece] at hblank
      cases hblank
    rw [hexpression.inner?_eq]
    simp only [String.ofList_toList, htarget, if_neg hnamed]

/-! ## Paths that can be referred to -/

theorem isTrimmed_expression (path : TokenPath) : Text.IsTrimmed (expression path).toList := by
  rw [expression, toList_expression]
  refine ⟨fun c hc => ?_, fun c hc => ?_⟩
  · cases hc
    decide
  · rw [← List.cons_append, List.getLast?_concat] at hc
    cases hc
    decide

/-- The expression of a path that can be referred to is read back as the path. -/
theorem referenceTarget?_expression (h : path.IsReferable) :
    referenceTarget? (expression path) = some path := by
  have htrim : path.map Text.trim = path.map id :=
    List.map_congr_left fun segment hsegment => (h.plain segment hsegment).2.2
  refine referenceTarget?_eq_some_iff.mpr ⟨path, ⟨?_, h.ne_nil, fun segment hsegment =>
    (h.plain segment hsegment).2.1, h.unbraced, fun segment hsegment => ?_⟩,
    htrim.trans (List.map_id path)⟩
  · exact Text.trim_eq_self_iff.mpr (isTrimmed_expression path)
  · obtain ⟨hne, _, hsame⟩ := h.plain segment hsegment
    rw [← Bool.not_eq_true, ← Text.trim_eq_empty_iff, hsame]
    exact hne

/-- All paths that are referred to can be. -/
theorem isReferable_of_referenceTarget? (h : referenceTarget? s = some path) :
    path.IsReferable := by
  obtain ⟨pieces, hexpression, rfl⟩ := referenceTarget?_eq_some_iff.mp h
  refine ⟨by simpa using hexpression.ne_nil, ?_, ?_⟩
  all_goals
    intro segment hsegment
    obtain ⟨piece, hpiece, rfl⟩ := List.mem_map.mp hsegment
  · refine ⟨fun hblank => ?_, fun hdot => ?_, Text.trim_trim piece⟩
    · rw [Text.trim_eq_empty_iff, hexpression.named piece hpiece] at hblank
      cases hblank
    · exact hexpression.undotted piece hpiece (Text.mem_of_mem_trim hdot)
  · obtain ⟨hopen, hclose⟩ := hexpression.unbraced piece hpiece
    exact ⟨fun hmem => hopen (Text.mem_of_mem_trim hmem),
      fun hmem => hclose (Text.mem_of_mem_trim hmem)⟩

/-! ## Texts as values -/

theorem ofScalar_str_eq_reference_iff :
    ofScalar (.str s) = .reference path ↔ referenceTarget? s = some path := by
  unfold ofScalar
  simp only
  split
  · rename_i target htarget
    rw [htarget, TokenValue.reference.injEq, Option.some.injEq]
  · rename_i hnone
    simp [hnone]

theorem ofScalar_str_of_none (h : referenceTarget? s = none) :
    ofScalar (.str s) = .literal (.str s) := by
  simp only [ofScalar, h]

theorem isReferable_of_ofScalar (h : ofScalar (.str s) = .reference path) : path.IsReferable :=
  isReferable_of_referenceTarget? (ofScalar_str_eq_reference_iff.mp h)

theorem ofScalar_expression (h : path.IsReferable) :
    ofScalar (.str (expression path)) = .reference path :=
  ofScalar_str_eq_reference_iff.mpr (referenceTarget?_expression h)

/-- A text refers if and only if it is an expression of some pieces, and then to these without the
blanks around them; any other text is kept as it is.  What is referred to can be, and the expression
and the dotted form of a path that can be referred to are both read back as the path. -/
theorem ofScalar_str_exact (s : String) :
    (∀ path, ofScalar (.str s) = .reference path ↔
      ∃ pieces, IsExpression s pieces ∧ pieces.map Text.trim = path) ∧
    ((¬ ∃ pieces, IsExpression s pieces) → ofScalar (.str s) = .literal (.str s)) ∧
    (∀ path, ofScalar (.str s) = .reference path →
      path.IsReferable ∧ ofScalar (.str (expression path)) = .reference path) ∧
    ∀ path : TokenPath, path.IsReferable →
      ofScalar (.str (expression path)) = .reference path ∧
        TokenPath.ofDotted path.dotted = path := by
  refine ⟨fun path => ?_, fun hnone => ?_, fun path hpath => ?_, fun path h => ?_⟩
  · rw [ofScalar_str_eq_reference_iff, referenceTarget?_eq_some_iff]
  · refine ofScalar_str_of_none (Option.eq_none_iff_forall_ne_some.mpr fun path hpath => hnone ?_)
    obtain ⟨pieces, hexpression, _⟩ := referenceTarget?_eq_some_iff.mp hpath
    exact ⟨pieces, hexpression⟩
  · have h := isReferable_of_ofScalar hpath
    exact ⟨h, ofScalar_expression h⟩
  · exact ⟨ofScalar_expression h, TokenPath.ofDotted_dotted h.plain h.ne_nil⟩

/-- Blanks do not matter around an expression and its pieces, but a blank piece does. -/
theorem ofScalar_str_exact_spaced :
    ofScalar (.str " \x7bColor . Base\n\x7d ") = .reference ["Color", "Base"] ∧
    (TokenPath.IsReferable ["Color", "Base"] ∧
      ofScalar (.str (expression ["Color", "Base"])) = .reference ["Color", "Base"] ∧
      TokenPath.ofDotted "Color.Base" = ["Color", "Base"]) ∧
    ofScalar (.str "\x7bColor. \x7d") = .literal (.str "\x7bColor. \x7d") := by
  have hspaced : ofScalar (.str " \x7bColor . Base\n\x7d ") = .reference ["Color", "Base"] := by
    decide
  obtain ⟨_, _, hreferable, hback⟩ := ofScalar_str_exact " \x7bColor . Base\n\x7d "
  obtain ⟨h, hsame⟩ := hreferable _ hspaced
  obtain ⟨hiff, hkept, _⟩ := ofScalar_str_exact "\x7bColor. \x7d"
  have hnone (path : TokenPath) : ofScalar (.str "\x7bColor. \x7d") ≠ .reference path := by
    have hnot : (ofScalar (.str "\x7bColor. \x7d")).isReference = false := by decide
    intro heq
    rw [heq] at hnot
    cases hnot
  refine ⟨hspaced, ⟨h, hsame, (hback _ h).2⟩, hkept ?_⟩
  rintro ⟨pieces, hexpression⟩
  exact hnone _ ((hiff _).mpr ⟨pieces, hexpression, rfl⟩)

end TokenValue

end DesignTokens
