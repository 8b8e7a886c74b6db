import DesignTokens.FileTree.Basic
import DesignTokens.Proofs.Text.Words
/-!
# Names of paths

A path text that ends in the suffix of a style sheet has a last name that ends in it as well, so the
path ends in a name of its own from wherever it is seen.
-/

set_option autoImplicit false

namespace DesignTokens

/-- The suffix of a style sheet's name. -/
def sheetSuffix : String := ".css"

/-- The last name of a path whose text ends in the suffix of a style sheet. -/
theorem Path.ofString_append_suffix (stem : String) :
    ∃ names last, (Path.ofString (stem ++ sheetSuffix)).names = names ++ [last ++ sheetSuffix] := by
  obtain ⟨pieces, last, hsplit⟩ :=
    Text.splitAtChar_append (show '/' ∉ sheetSuffix.toList by decide) stem.toList
  refine ⟨(pieces.map String.ofList).filter fun name => name ≠ "" ∧ name ≠ ".",
    String.ofList last, ?_⟩
  have hlength : 4 ≤ (String.ofList last ++ sheetSuffix).length := by
    have hfour : sheetSuffix.length = 4 := by decide
    rw [String.length_append, hfour]
    omega
  have hkeep : ∀ name : String, name.length < 4 → String.ofList last ++ sheetSuffix ≠ name := by
    intro name hname heq
    rw [heq] at hlength
    omega
  unfold Path.ofString
  simp only [String.toList_append]
  rw [hsplit, List.map_append, List.filter_append, List.map_singleton, String.ofList_append,
    String.ofList_toList, List.filter_cons_of_pos]
  · rfl
  · exact decide_eq_true ⟨hkeep "" (by decide), hkeep "." (by decide)⟩

/-- Such a path ends in a name of its own, wherever it is seen from. -/
theorem Path.endsInName_join_suffix (base : Path) (stem : String) :
    FileTree.endsInName (base.join (Path.ofString (stem ++ sheetSuffix))) = true := by
  obtain ⟨names, last, hnames⟩ := Path.ofString_append_suffix stem
  have hjoin : ∃ above, (base.join (Path.ofString (stem ++ sheetSuffix))).names =
      above ++ [last ++ sheetSuffix] := by
    unfold Path.join
    split
    · exact ⟨names, hnames⟩
    · exact ⟨base.names ++ names, by simp only [hnames, List.append_assoc]⟩
  obtain ⟨above, habove⟩ := hjoin
  have hlength : 4 ≤ (last ++ sheetSuffix).length := by
    have hfour : sheetSuffix.length = 4 := by decide
    rw [String.length_append, hfour]
    omega
  unfold FileTree.endsInName Path.name
  rw [habove, List.getLastD_concat, Bool.and_eq_true, decide_eq_true_eq, decide_eq_true_eq]
  constructor <;> (intro heq; rw [heq] at hlength; exact absurd hlength (by decide))

end DesignTokens
