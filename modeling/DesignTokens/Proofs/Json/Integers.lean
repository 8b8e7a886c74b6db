import DesignTokens.FileTree.Basic
import DesignTokens.Json.Reader
import Mathlib.Data.List.TakeWhile
/-!
# Reading integers

A text of decimal digits that does not begin with zero is read as the integer that it writes, unless
it has more digits than the reader takes.  Such a text is the same in a file as in memory.
-/

set_option autoImplicit false

namespace DesignTokens

namespace Json

/-- A digit is none of the characters at which something else begins. -/
theorem ne_of_isDigit {c d : Char} (hc : c.isDigit = true) (hd : d.isDigit = false) : c ≠ d := by
  rintro rfl
  rw [hc] at hd
  cases hd

/-- No word begins with a digit. -/
theorem findSome?_wordValues_of_isDigit {c : Char} (hc : c.isDigit = true) (rest : List Char) :
    (wordValues.findSome? fun (word, value) =>
      (afterWord? word.toList (c :: rest)).map (value, ·)) = none := by
  simp [wordValues, afterWord?, (ne_of_isDigit hc (d := 'n') rfl).symm,
    (ne_of_isDigit hc (d := 't') rfl).symm, (ne_of_isDigit hc (d := 'f') rfl).symm,
    (ne_of_isDigit hc (d := 'N') rfl).symm, (ne_of_isDigit hc (d := 'I') rfl).symm,
    (ne_of_isDigit hc (d := '-') rfl).symm]

section

variable {c : Char} {rest : List Char} (hdigits : ∀ d ∈ c :: rest, d.isDigit = true)
  (hzero : c ≠ '0')

include hdigits

theorem skipSpace_of_digits : skipSpace (c :: rest) = c :: rest := by
  have hc : c.isDigit = true := hdigits c List.mem_cons_self
  unfold skipSpace
  rw [List.dropWhile_cons_of_neg]
  simp [isSpace, ne_of_isDigit hc (d := ' ') rfl, ne_of_isDigit hc (d := '\t') rfl,
    ne_of_isDigit hc (d := '\n') rfl, ne_of_isDigit hc (d := '\r') rfl]

include hzero

theorem readWhole_of_digits : readWhole (c :: rest) = some (c :: rest, []) := by
  unfold readWhole
  split
  · rename_i heq
    cases heq
    exact absurd rfl hzero
  · rename_i heq
    cases heq
    rw [if_pos (hdigits c List.mem_cons_self), List.takeWhile_eq_self_iff.mpr hdigits,
      List.dropWhile_eq_nil_iff.mpr hdigits]
  · rename_i heq
    cases heq

theorem readNumberText?_of_digits :
    readNumberText? (c :: rest) = some (⟨false, c :: rest, none, none⟩, []) := by
  unfold readNumberText?
  split
  rename_i negative unsigned hsign
  split at hsign
  · rename_i heq
    cases heq
    exact absurd (hdigits '-' List.mem_cons_self) Bool.false_ne_true
  · cases hsign
    rw [readWhole_of_digits hdigits hzero]
    rfl

theorem readAtom_of_digits :
    readAtom (c :: rest) =
      if maxIntegerDigits < (c :: rest).length then .error .integerTooLong
      else .ok (.int (decimalValue (c :: rest)), []) := by
  unfold readAtom
  rw [findSome?_wordValues_of_isDigit (hdigits c List.mem_cons_self),
    readNumberText?_of_digits hdigits hzero]
  unfold NumberText.value
  simp only
  split
  · rfl
  · rfl

theorem readDocument_of_digits (policy : KeyPolicy) :
    readDocument policy (c :: rest) =
      if maxIntegerDigits < (c :: rest).length then .error .integerTooLong
      else .ok (.int (decimalValue (c :: rest))) := by
  have hvalue (fuel : Nat) :
      readValue policy (fuel + 1) (c :: rest) = readAtom (c :: rest) := by
    have hc : c.isDigit = true := hdigits c List.mem_cons_self
    unfold readValue
    split
    · rename_i heq
      cases heq
      cases hc
    · rename_i heq
      cases heq
      cases hc
    · rename_i heq
      cases heq
      cases hc
    · rfl
  unfold readDocument
  split
  · rename_i heq
    cases heq
    exact absurd (hdigits '\uFEFF' List.mem_cons_self) Bool.false_ne_true
  · rw [skipSpace_of_digits hdigits, hvalue, readAtom_of_digits hdigits hzero]
    split
    · rfl
    · rfl

/-- A text of digits alone writes an integer, which is read unless it has too many of them. -/
theorem read_of_digits (policy : KeyPolicy) :
    read policy (String.ofList (c :: rest)) =
      if maxIntegerDigits < (c :: rest).length then .error .integerTooLong
      else .ok (.int (decimalValue (c :: rest))) := by
  unfold read
  simp only
  rw [String.toList_ofList, readDocument_of_digits hdigits hzero]
  split
  · rfl
  · rfl

end

/-- A text of ones. -/
def ones (count : Nat) : String :=
  String.ofList (List.replicate count '1')

theorem read_ones_of_lt {count : Nat} (policy : KeyPolicy) (h : maxIntegerDigits < count) :
    read policy (ones count) = .error .integerTooLong := by
  cases count with
  | zero => cases h
  | succ count =>
    have hdigits : ∀ d ∈ '1' :: List.replicate count '1', d.isDigit = true := by
      intro d hd
      rw [List.eq_of_mem_replicate (n := count + 1) hd]
      rfl
    have hread := read_of_digits hdigits (by decide) policy
    rw [List.length_cons, List.length_replicate, if_pos h] at hread
    exact hread

end Json

/-! ## Texts in files -/

theorem Text.normalizeNewlines_of_not_mem {cs : List Char} (h : '\r' ∉ cs) :
    normalizeNewlines cs = cs := by
  induction cs with
  | nil => rfl
  | cons c rest ih =>
    rw [List.mem_cons, not_or] at h
    obtain ⟨hc, hrest⟩ := h
    rw [normalizeNewlines, if_neg (Ne.symm hc), ih hrest]
    rintro _ rfl _
    exact hc rfl

/-- A text without carriage returns is read back from its bytes. -/
theorem FileTree.decodeText_toUTF8 {text : String} (h : '\r' ∉ text.toList) :
    decodeText text.toUTF8 = some text := by
  have hutf8 : String.fromUTF8? text.toUTF8 = some text := by
    unfold String.fromUTF8?
    rw [String.toUTF8_eq_toByteArray, dif_pos text.isValidUTF8]
    rfl
  unfold decodeText
  rw [hutf8, Option.map_some, Text.normalizeNewlines_of_not_mem h, String.ofList_toList]

end DesignTokens
