import DesignTokens.Css.Value
import DesignTokens.Proofs.Document
import DesignTokens.Proofs.Json.Printer
import DesignTokens.Proofs.Text.Words
/-!
# Values stay within their declaration

A literal that a document may hold is written without the characters that end a declaration or a
rule, and with single spaces between its words, whatever its type adds.
-/

set_option autoImplicit false

namespace DesignTokens.Css

/-- A text that stays within a declaration: it has no character that ends one, and no blanks but
single spaces between words. -/
structure Contained (text : String) : Prop where
  not_delimiter : ∀ c ∈ text.toList, Document.isDelimiter c = false
  spaced : Text.SingleSpaced text.toList

/-! ## Letters, digits, points and signs -/

theorem isDelimiter_of_isAlphanum {c : Char} (h : c.isAlphanum = true) :
    Document.isDelimiter c = false := by
  unfold Document.isDelimiter
  simp only [Bool.or_eq_false_iff, beq_eq_false_iff_ne]
  refine ⟨⟨?_, ?_⟩, ?_⟩
  all_goals
    rintro rfl
    revert h
    decide

theorem isDelimiter_of_isBlank {c : Char} (h : Text.isBlank c = true) :
    Document.isDelimiter c = false := by
  unfold Document.isDelimiter
  simp only [Bool.or_eq_false_iff, beq_eq_false_iff_ne]
  refine ⟨⟨?_, ?_⟩, ?_⟩
  all_goals
    rintro rfl
    revert h
    decide

/-- Letters, digits, points and signs make one word. -/
theorem contained_of_isWord {text : String} (h : Json.IsWord text.toList) : Contained text := by
  have hplain {c : Char} (hc : c ∈ text.toList) :
      Document.isDelimiter c = false ∧ Text.isBlank c = false := by
    have hword := h c hc
    unfold Json.isWordChar at hword
    simp only [Bool.or_eq_true, beq_iff_eq] at hword
    rcases hword with ((halphanum | rfl) | rfl) | rfl
    · exact ⟨isDelimiter_of_isAlphanum halphanum, Text.isBlank_of_isAlphanum halphanum⟩
    · decide
    · decide
    · decide
  exact ⟨fun c hc => (hplain hc).1, Text.singleSpaced_of_no_blank fun c hc => (hplain hc).2⟩

/-- A number is shown as JSON has it, or by a word for what is not finite. -/
theorem isWord_shownFloat (x : Binary64) : Json.IsWord (Json.shownFloatLayout.render x).toList := by
  have hinfinity : ∀ negative : Bool,
      Json.IsWord (if negative then "-" ++ "inf" else "inf").toList := by decide
  have hpositive : Json.shownFloatLayout.positive = Json.floatLayout.positive := rfl
  have hjson := Json.isWord_render_float x
  rw [Json.render] at hjson
  unfold Decimal.Layout.render at hjson ⊢
  by_cases hnan : x.isNaN = true
  · rw [if_pos hnan]
    decide
  · rw [if_neg hnan] at hjson ⊢
    by_cases hfinite : x.isFinite = true
    · rw [hpositive]
      simp only [hfinite] at hjson ⊢
      exact hjson
    · simp only [hfinite]
      exact hinfinity x.isNegative

/-! ## Texts -/

theorem contained_normalizeText {s : String}
    (h : ∀ c ∈ s.toList, Document.isDelimiter c = false) : Contained (normalizeText s) := by
  obtain ⟨hspaced, hchars⟩ := Text.singleSpaced_words s
  refine ⟨fun c hc => ?_, hspaced⟩
  rcases hchars c hc with rfl | hmem
  · rfl
  · exact h c hmem

/-- Quotes belong to the words that they stand at. -/
theorem Contained.quoted {text : String} (h : Contained text) :
    Contained ("\"" ++ text ++ "\"") := by
  have hlist : ("\"" ++ text ++ "\"").toList = '"' :: text.toList ++ ['"'] := by
    simp
  refine ⟨?_, ?_⟩
  · rw [hlist]
    intro c hc
    rcases List.mem_append.mp hc with hfirst | hlast
    · rcases List.mem_cons.mp hfirst with rfl | htext
      · rfl
      · exact h.not_delimiter c htext
    · rw [List.mem_singleton.mp hlast]
      rfl
  · rw [hlist]
    exact (h.spaced.cons rfl).concat rfl

theorem contained_fontWeight {s number : String} (h : fontWeight? s = some number) :
    Contained number := by
  have hnumbers : ∀ pair ∈ fontWeights, Json.IsWord pair.2.toList := by decide
  obtain ⟨pair, hfind, rfl⟩ := Option.map_eq_some_iff.mp h
  exact contained_of_isWord (hnumbers pair (List.mem_of_find?_eq_some hfind))

theorem contained_renderText {s : String} (h : ∀ c ∈ s.toList, Document.isDelimiter c = false)
    (type : TokenType) : Contained (renderText s type) := by
  have htext := contained_normalizeText h
  unfold renderText
  simp only
  split
  · split
    · exact htext.quoted
    · exact htext
  · cases hweight : fontWeight? (normalizeText s) with
    | none => exact htext
    | some number => exact contained_fontWeight hweight
  · exact htext

/-- A contained literal is written as a contained text, whatever its type. -/
theorem contained_renderValue {value : Scalar} (h : value.Contained) (type : TokenType) :
    Contained (renderValue value type) := by
  cases value with
  | bool b =>
    have hwords : ∀ b : Bool, Json.IsWord (if b then "true" else "false").toList := by decide
    exact contained_of_isWord (hwords b)
  | int n => exact contained_of_isWord (Json.isWord_render_int n)
  | float x =>
    unfold renderValue
    simp only
    split
    · exact contained_of_isWord (Json.isWord_render_int _)
    · exact contained_of_isWord (isWord_shownFloat x)
  | str s => exact contained_renderText h type

end DesignTokens.Css
