import DesignTokens.Proofs.Cascade
import DesignTokens.Proofs.Lists
import DesignTokens.Proofs.Store
import DesignTokens.Proofs.Text.Words
import DesignTokens.Token.TokenPath
/-!
# Dotted forms

A caller names a token by the dotted form of its path.  The form is read back as the path unless a
segment is empty, has a dot, or has blanks around it.  The empty path, whose form is read back as a
path of one segment, is the path of no token.
-/

set_option autoImplicit false

namespace DesignTokens

namespace TokenPath

/-- Every segment of a path is read back from a dotted form: it is not empty, has no dot, and has no
blanks around it. -/
def IsPlain (path : TokenPath) : Prop :=
  ∀ segment ∈ path, segment ≠ "" ∧ '.' ∉ segment.toList ∧ Text.trim segment = segment

instance (path : TokenPath) : Decidable path.IsPlain :=
  inferInstanceAs (Decidable (∀ segment ∈ path,
    segment ≠ "" ∧ '.' ∉ segment.toList ∧ Text.trim segment = segment))

/-- A text is read as the pieces that dots put together to it, each without the blanks around it. -/
theorem ofDotted_eq_iff {s : String} {path : TokenPath} : ofDotted s = path ↔
    ∃ pieces : List String, pieces ≠ [] ∧ (∀ piece ∈ pieces, '.' ∉ piece.toList) ∧
      ".".intercalate pieces = s ∧ pieces.map Text.trim = path := by
  have hdot : ".".toList = ['.'] := rfl
  constructor
  · rintro rfl
    obtain ⟨hpieces, hjoined⟩ := Text.splitAtChar_spec '.' s.toList
    refine ⟨(Text.splitAtChar '.' s.toList).map String.ofList, ?_, ?_, ?_, ?_⟩
    · simpa using Text.splitAtChar_ne_nil s.toList
    · simpa using hpieces
    · rw [← String.toList_inj, String.toList_intercalate, hdot, List.map_map]
      simpa [Function.comp_def] using hjoined
    · rw [List.map_map, ofDotted]
      rfl
  · rintro ⟨pieces, hne, hdots, rfl, rfl⟩
    have hcut : Text.splitAtChar '.' (".".intercalate pieces).toList =
        pieces.map String.toList := by
      rw [String.toList_intercalate, hdot, Text.splitAtChar_eq_iff]
      exact ⟨by simpa using hne, by simpa using hdots, rfl⟩
    rw [ofDotted, hcut, List.map_map]
    simp only [Function.comp_def, String.ofList_toList]

/-- The dotted form of a plain path that is not empty is read back as the path. -/
theorem ofDotted_dotted {path : TokenPath} (hplain : path.IsPlain) (hne : path ≠ []) :
    ofDotted path.dotted = path := by
  have hdots : ∀ segment ∈ path, '.' ∉ segment.toList := fun segment hsegment =>
    (hplain segment hsegment).2.1
  have htrim : path.map Text.trim = path.map id :=
    List.map_congr_left fun segment hsegment => (hplain segment hsegment).2.2
  exact ofDotted_eq_iff.mpr ⟨path, hne, hdots, rfl, htrim.trans (List.map_id path)⟩

/-- Only the root, and a blank key right below it, have no text as dotted form. -/
theorem dotted_eq_empty_iff {path : TokenPath} : path.dotted = "" ↔ path = [] ∨ path = [""] := by
  have hempty (s : String) : s = "" ↔ s.toList = [] := String.toList_eq_nil_iff.symm
  unfold dotted
  rw [hempty, String.toList_intercalate]
  match path with
  | [] => simp
  | [segment] => simp
  | first :: second :: rest => simp [List.intercalate_cons_cons]

end TokenPath

/-- A path of a composed tree is that of a token of a document. -/
theorem Store.exists_flatten_of_mem_keys_compose {collect : Bool} {tree : FileTree} {store : Store}
    {sources : List LayerSource} {mode : String} {path : TokenPath}
    (h : path ∈ OrderedMap.keys
      (Cascade.compose (Store.load collect tree store sources).layers mode)) :
    ∃ name document tokens, Document.flatten name document = .ok tokens ∧
      ∃ token ∈ tokens, token.path = path := by
  rw [Cascade.keys_compose, ← Cascade.exists_winner?_iff] at h
  obtain ⟨token, hwinner⟩ := h
  obtain ⟨layer, hlayer, htoken⟩ := Cascade.exists_winningLayer?_of_winner? hwinner
  obtain ⟨name, document, hflatten⟩ :=
    exists_flatten_of_mem_layers (Cascade.mem_layers_of_winningLayer? hlayer)
  exact ⟨name, document, _, hflatten, token, htoken, Cascade.path_of_winner? hwinner⟩

/-- No path of a composed tree is empty. -/
theorem Store.ne_nil_of_mem_keys_compose {collect : Bool} {tree : FileTree} {store : Store}
    {sources : List LayerSource} {mode : String} {path : TokenPath}
    (h : path ∈ OrderedMap.keys
      (Cascade.compose (Store.load collect tree store sources).layers mode)) : path ≠ [] := by
  obtain ⟨_, _, _, hflatten, token, htoken, rfl⟩ := exists_flatten_of_mem_keys_compose h
  exact Document.path_ne_nil_of_mem_flatten hflatten token htoken

end DesignTokens
