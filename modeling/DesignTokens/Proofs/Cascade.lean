import DesignTokens.Cascade
import DesignTokens.Proofs.OrderedMap
/-!
# Laws of the cascade

The tree of a mode holds, for every path that some applicable layer defines, the token of the last
definition, at the place of the first one.  Without a coverage gap all trees have the same paths.
-/

set_option autoImplicit false

namespace DesignTokens

/-- A tree as the cascade composes it: every token stands under its own path. -/
def TokenTree.Keyed (tree : TokenTree) : Prop :=
  ∀ entry ∈ tree, entry.2.path = entry.1

namespace Cascade

/-! ## The tree of a mode -/

/-- The token that wins a path in a mode: the last one that an applicable layer defines there. -/
def winner? (layers : List Layer) (mode : String) (path : TokenPath) : Option Token :=
  (tokensFor layers mode).reverse.find? fun token => token.path = path

/-- The layer that wins a path in a mode: the last applicable one that defines it. -/
def winningLayer? (layers : List Layer) (mode : String) (path : TokenPath) : Option Layer :=
  (layersFor layers mode).reverse.find? fun layer =>
    layer.tokens.any fun token => token.path = path

/-- The references from a path end at a literal, where every path stands for its winner in the
mode. -/
inductive Reaches (layers : List Layer) (mode : String) : TokenPath → Scalar → Prop where
  | literal {path : TokenPath} {token : Token} {value : Scalar}
      (hwinner : winner? layers mode path = some token) (hvalue : token.value = .literal value) :
      Reaches layers mode path value
  | reference {path target : TokenPath} {token : Token} {value : Scalar}
      (hwinner : winner? layers mode path = some token)
      (hvalue : token.value = .reference target) (hrest : Reaches layers mode target value) :
      Reaches layers mode path value

/-- The paths of a mode in the order of their first definition. -/
def definitionOrder (layers : List Layer) (mode : String) : List TokenPath :=
  ((tokensFor layers mode).map (·.path)).eraseDups

theorem ofTokens_eq_ofPairs (tokens : List Token) :
    ofTokens tokens = OrderedMap.ofPairs (tokens.map fun token => (token.path, token)) := by
  rw [ofTokens, OrderedMap.ofPairs, List.foldl_map]
  rfl

theorem keys_ofTokens (tokens : List Token) :
    OrderedMap.keys (ofTokens tokens) = (tokens.map (·.path)).eraseDups := by
  rw [ofTokens_eq_ofPairs, OrderedMap.keys_ofPairs, List.map_map]
  rfl

theorem get?_ofTokens (tokens : List Token) (path : TokenPath) :
    OrderedMap.get? (ofTokens tokens) path = tokens.reverse.find? fun token => token.path = path := by
  rw [ofTokens_eq_ofPairs, OrderedMap.get?_ofPairs, ← List.map_reverse, List.find?_map,
    Option.map_map]
  simp [Function.comp_def]

/-- A path of a composed tree has the token of its last definition. -/
theorem get?_compose (layers : List Layer) (mode : String) (path : TokenPath) :
    OrderedMap.get? (compose layers mode) path = winner? layers mode path :=
  get?_ofTokens _ _

/-- The paths of a composed tree stand in the order of their first definition. -/
theorem keys_compose (layers : List Layer) (mode : String) :
    OrderedMap.keys (compose layers mode) = definitionOrder layers mode :=
  keys_ofTokens _

theorem nodup_keys_compose (layers : List Layer) (mode : String) :
    (OrderedMap.keys (compose layers mode)).Nodup := by
  rw [compose, ofTokens_eq_ofPairs]
  exact OrderedMap.nodup_keys_ofPairs _

theorem nodup_definitionOrder (layers : List Layer) (mode : String) :
    (definitionOrder layers mode).Nodup :=
  keys_compose layers mode ▸ nodup_keys_compose layers mode

theorem path_of_winner? {layers : List Layer} {mode : String} {path : TokenPath} {token : Token}
    (h : winner? layers mode path = some token) : token.path = path := by
  simpa using List.find?_some h

/-- Among layers, the last token of the first layer that has one at a path. -/
theorem findSome?_tokens_eq (layers : List Layer) (path : TokenPath) :
    (layers.findSome? fun layer => layer.tokens.reverse.find? fun token => token.path = path) =
      (layers.find? fun layer => layer.tokens.any fun token => token.path = path).bind
        fun layer => layer.tokens.reverse.find? fun token => token.path = path := by
  induction layers with
  | nil => rfl
  | cons layer rest ih =>
    rw [List.findSome?_cons, List.find?_cons]
    cases hfind : layer.tokens.reverse.find? (fun token => token.path = path) with
    | none =>
      have hany : (layer.tokens.any fun token => decide (token.path = path)) = false := by
        simpa using hfind
      simp only [hany]
      exact ih
    | some token =>
      have hany : (layer.tokens.any fun token => decide (token.path = path)) = true := by
        refine List.any_eq_true.mpr ⟨token, ?_, by simpa using List.find?_some hfind⟩
        exact List.mem_reverse.mp (List.mem_of_find?_eq_some hfind)
      simp only [hany, Option.bind_some, hfind]

/-- The winner of a path is the last token of its winning layer there. -/
theorem winner?_eq (layers : List Layer) (mode : String) (path : TokenPath) :
    winner? layers mode path = (winningLayer? layers mode path).bind
      fun layer => layer.tokens.reverse.find? fun token => token.path = path := by
  unfold winner? winningLayer? tokensFor
  rw [List.reverse_flatMap, List.find?_flatMap]
  exact findSome?_tokens_eq _ path

/-- The winner of a path stands in the winning layer. -/
theorem exists_winningLayer?_of_winner? {layers : List Layer} {mode : String} {path : TokenPath}
    {token : Token} (h : winner? layers mode path = some token) :
    ∃ layer, winningLayer? layers mode path = some layer ∧ token ∈ layer.tokens := by
  rw [winner?_eq, Option.bind_eq_some_iff] at h
  obtain ⟨layer, hlayer, htoken⟩ := h
  exact ⟨layer, hlayer, List.mem_reverse.mp (List.mem_of_find?_eq_some htoken)⟩

/-- A path with a winning layer has a winner. -/
theorem exists_winner?_of_winningLayer? {layers : List Layer} {mode : String} {path : TokenPath}
    {layer : Layer} (h : winningLayer? layers mode path = some layer) :
    ∃ token ∈ layer.tokens, winner? layers mode path = some token := by
  have hany := List.find?_some h
  simp only [List.any_eq_true, decide_eq_true_eq] at hany
  obtain ⟨token, hmem, hpath⟩ := hany
  have hsome : (layer.tokens.reverse.find? fun token => token.path = path).isSome := by
    rw [List.find?_isSome]
    exact ⟨token, List.mem_reverse.mpr hmem, by simpa using hpath⟩
  obtain ⟨last, hlast⟩ := Option.isSome_iff_exists.mp hsome
  refine ⟨last, List.mem_reverse.mp (List.mem_of_find?_eq_some hlast), ?_⟩
  rw [winner?_eq, h, Option.bind_some, hlast]

theorem mem_layers_of_winningLayer? {layers : List Layer} {mode : String} {path : TokenPath}
    {layer : Layer} (h : winningLayer? layers mode path = some layer) : layer ∈ layers :=
  (List.mem_filter.mp (List.mem_reverse.mp (List.mem_of_find?_eq_some h))).1

/-- A path has a winner exactly if it is defined. -/
theorem exists_winner?_iff {layers : List Layer} {mode : String} {path : TokenPath} :
    (∃ token, winner? layers mode path = some token) ↔ path ∈ definitionOrder layers mode := by
  rw [← keys_compose, ← OrderedMap.get?_isSome_iff, get?_compose, Option.isSome_iff_exists]

/-- In a composed tree every token stands under its own path. -/
theorem keyed_compose (layers : List Layer) (mode : String) :
    TokenTree.Keyed (compose layers mode) := by
  intro entry hmem
  have hget := OrderedMap.get?_eq_some_of_mem (nodup_keys_compose layers mode) hmem
  rw [get?_compose] at hget
  exact path_of_winner? hget

/-! ## The trees of several modes -/

/-- Distinct modes have one tree each, in their order. -/
theorem composeAll_of_nodup (layers : List Layer) {modes : List String} (h : modes.Nodup) :
    composeAll layers modes = modes.map fun mode => (mode, compose layers mode) := by
  apply OrderedMap.ofPairs_of_nodup
  simpa [Function.comp_def] using h

/-! ## Coverage -/

section Coverage

variable {α : Type} {trees : ByMode (OrderedMap TokenPath α)}

theorem mem_allPaths {path : TokenPath} :
    path ∈ allPaths trees ↔ ∃ tree ∈ trees, path ∈ OrderedMap.keys tree.2 := by
  simp [allPaths]

/-- There is no gap at a path exactly if no mode lacks it. -/
theorem gapAt?_eq_none_iff {path : TokenPath} :
    gapAt? trees path = none ↔ ∀ tree ∈ trees, path ∈ OrderedMap.keys tree.2 := by
  have hempty : gapAt? trees path = none ↔ modesWithout trees path = [] := by
    unfold gapAt?
    cases modesWithout trees path <;> simp
  rw [hempty, modesWithout, List.map_eq_nil_iff, List.filter_eq_nil_iff]
  simp only [Bool.not_eq_true', Bool.not_eq_false, OrderedMap.has_iff_mem_keys]

/-- Without a gap every mode has the paths of every other mode. -/
theorem mem_keys_of_coverageGaps_eq_nil (h : coverageGaps trees = [])
    {first second : String × OrderedMap TokenPath α} (hfirst : first ∈ trees)
    (hsecond : second ∈ trees) {path : TokenPath} (hpath : path ∈ OrderedMap.keys first.2) :
    path ∈ OrderedMap.keys second.2 := by
  have hall : path ∈ allPaths trees := mem_allPaths.mpr ⟨first, hfirst, hpath⟩
  have hgap : gapAt? trees path = none := by
    cases hcase : gapAt? trees path with
    | none => rfl
    | some gap =>
      have hmem : gap ∈ coverageGaps trees := List.mem_filterMap.mpr ⟨path, hall, hcase⟩
      simp [h] at hmem
  exact gapAt?_eq_none_iff.mp hgap second hsecond

end Coverage

end Cascade

end DesignTokens
