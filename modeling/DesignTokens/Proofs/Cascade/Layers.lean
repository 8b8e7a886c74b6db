import DesignTokens.Proofs.Cascade
import DesignTokens.Proofs.Lists
/-!
# What layers make of a tree

The tree of a mode in terms of its layers alone.  Its paths are those that the selected layers
define, in the order of their first definitions; each has the token of its last definition.  The
order of two neighbouring layers matters only for a path that both define in one mode.
-/

set_option autoImplicit false

namespace DesignTokens.Cascade

variable {layers before after : List Layer} {first second layer : Layer} {mode : String}
  {path : TokenPath} {token : Token}

/-! ## The selected layers -/

/-- A layer takes part in a mode: it has no mode, or this one. -/
def Selected (layer : Layer) (mode : String) : Prop :=
  layer.mode = none ∨ layer.mode = some mode

instance (layer : Layer) (mode : String) : Decidable (Selected layer mode) :=
  inferInstanceAs (Decidable (_ ∨ _))

theorem appliesTo_iff : layer.appliesTo mode = true ↔ Selected layer mode := by
  unfold Layer.appliesTo Selected
  cases layer.mode with
  | none => simp
  | some own => simp

/-- The definitions that take part in a mode, one layer after the other. -/
def definitions (layers : List Layer) (mode : String) : List Token :=
  (layers.filter fun layer => Selected layer mode).flatMap (·.tokens)

theorem tokensFor_eq_definitions (layers : List Layer) (mode : String) :
    tokensFor layers mode = definitions layers mode := by
  unfold tokensFor layersFor definitions
  congr 1
  refine List.filter_congr fun layer _ => ?_
  rw [Bool.eq_iff_iff, decide_eq_true_iff]
  exact appliesTo_iff

theorem mem_definitions : token ∈ definitions layers mode ↔
    ∃ layer ∈ layers, Selected layer mode ∧ token ∈ layer.tokens := by
  simp only [definitions, List.mem_flatMap, List.mem_filter, decide_eq_true_eq, and_assoc]

theorem definitions_append (layers later : List Layer) (mode : String) :
    definitions (layers ++ later) mode = definitions layers mode ++ definitions later mode := by
  simp only [definitions, List.filter_append, List.flatMap_append]

/-! ## Paths and their tokens -/

/-- A composed tree has the paths that selected layers define. -/
theorem mem_keys_compose : path ∈ OrderedMap.keys (compose layers mode) ↔
    ∃ layer ∈ layers, Selected layer mode ∧ ∃ token ∈ layer.tokens, token.path = path := by
  rw [keys_compose, definitionOrder, List.mem_eraseDups, tokensFor_eq_definitions, List.mem_map]
  constructor
  · rintro ⟨token, hmem, hpath⟩
    obtain ⟨layer, hlayer, hselected, htoken⟩ := mem_definitions.mp hmem
    exact ⟨layer, hlayer, hselected, token, htoken, hpath⟩
  · rintro ⟨layer, hlayer, hselected, token, htoken, hpath⟩
    exact ⟨token, mem_definitions.mpr ⟨layer, hlayer, hselected, htoken⟩, hpath⟩

/-- A token is the last definition of a path. -/
def IsLast (tokens : List Token) (path : TokenPath) (token : Token) : Prop :=
  ∃ earlier later, tokens = earlier ++ token :: later ∧ token.path = path ∧
    ∀ other ∈ later, other.path ≠ path

/-- A path of a composed tree has the token of its last definition. -/
theorem get?_compose_eq_some_iff : OrderedMap.get? (compose layers mode) path = some token ↔
    IsLast (definitions layers mode) path token := by
  rw [get?_compose, winner?, tokensFor_eq_definitions, List.find?_eq_some_iff_append]
  constructor
  · rintro ⟨hpath, later, earlier, hsplit, hlater⟩
    refine ⟨earlier.reverse, later.reverse, ?_, by simpa using hpath, fun other hother => ?_⟩
    · rw [← List.reverse_reverse (definitions layers mode), hsplit]
      simp
    · simpa using hlater other (List.mem_reverse.mp hother)
  · rintro ⟨earlier, later, hsplit, hpath, hlater⟩
    refine ⟨by simpa using hpath, later.reverse, earlier.reverse, by simp [hsplit], ?_⟩
    intro other hother
    simpa using hlater other (List.mem_reverse.mp hother)

/-! ## Neighbouring layers -/

/-- Two layers define no path in common. -/
def Apart (first second : Layer) : Prop :=
  ∀ token ∈ first.tokens, ∀ other ∈ second.tokens, token.path ≠ other.path

/-- The last definition of a path stays, where neighbouring runs without a common path change
places. -/
theorem find?_swap {earlier run run' later : List Token}
    (hapart : ∀ token ∈ run, ∀ other ∈ run', token.path ≠ other.path) (path : TokenPath) :
    (earlier ++ (run ++ run') ++ later).reverse.find? (fun token => token.path = path) =
      (earlier ++ (run' ++ run) ++ later).reverse.find? fun token => token.path = path := by
  simp only [List.reverse_append, List.find?_append, Option.or_assoc]
  congr 1
  rw [← Option.or_assoc, ← Option.or_assoc]
  congr 1
  cases hrun : run.reverse.find? (fun token => token.path = path) with
  | none => simp
  | some token =>
    cases hrun' : run'.reverse.find? (fun token => token.path = path) with
    | none => simp
    | some other =>
      have hmem := List.mem_reverse.mp (List.mem_of_find?_eq_some hrun)
      have hmem' := List.mem_reverse.mp (List.mem_of_find?_eq_some hrun')
      have hpath : token.path = path := by simpa using List.find?_some hrun
      have hpath' : other.path = path := by simpa using List.find?_some hrun'
      exact absurd (hpath.trans hpath'.symm) (hapart token hmem other hmem')

theorem definitions_pair (first second : Layer) (mode : String) :
    definitions [first, second] mode = definitions [first] mode ++ definitions [second] mode :=
  definitions_append [first] [second] mode

/-- Neighbouring layers may change places, if no path is defined by both in one mode. -/
theorem get?_compose_swap
    (h : Apart first second ∨ ∀ mode, ¬ (Selected first mode ∧ Selected second mode))
    (before after : List Layer) (mode : String) (path : TokenPath) :
    OrderedMap.get? (compose (before ++ first :: second :: after) mode) path =
      OrderedMap.get? (compose (before ++ second :: first :: after) mode) path := by
  have hsplit (one two : Layer) : definitions (before ++ one :: two :: after) mode =
      definitions before mode ++ (definitions [one] mode ++ definitions [two] mode) ++
        definitions after mode := by
    rw [← definitions_pair, ← definitions_append, ← definitions_append, List.append_assoc]
    rfl
  rw [get?_compose, get?_compose, winner?, winner?, tokensFor_eq_definitions,
    tokensFor_eq_definitions, hsplit, hsplit]
  refine find?_swap (fun token hmem other hmem' => ?_) path
  obtain ⟨_, hfirst, hselected, htoken⟩ := mem_definitions.mp hmem
  obtain ⟨_, hsecond, hselected', hother⟩ := mem_definitions.mp hmem'
  rw [List.mem_singleton] at hfirst hsecond
  subst hfirst hsecond
  rcases h with hapart | hnever
  · exact hapart token htoken other hother
  · exact absurd ⟨hselected, hselected'⟩ (hnever mode)

/-! ## The whole -/

/-- The tree of a mode has exactly the paths that the selected layers define, each once, in the
order of their first definitions, and each with the token of its last definition.  So neighbouring
layers may change places without any path getting another token, if they define no path in common or
no mode selects both. -/
theorem compose_by_layers (layers : List Layer) :
    (∀ mode,
      (OrderedMap.keys (compose layers mode)).Nodup ∧
      (∀ path, path ∈ OrderedMap.keys (compose layers mode) ↔
        ∃ layer ∈ layers, Selected layer mode ∧ ∃ token ∈ layer.tokens, token.path = path) ∧
      (OrderedMap.keys (compose layers mode)).Pairwise (fun path other =>
        ((definitions layers mode).map (·.path)).idxOf path <
          ((definitions layers mode).map (·.path)).idxOf other) ∧
      ∀ path token, OrderedMap.get? (compose layers mode) path = some token ↔
        IsLast (definitions layers mode) path token) ∧
    ∀ before first second after, layers = before ++ first :: second :: after →
      (Apart first second ∨ ∀ mode, ¬ (Selected first mode ∧ Selected second mode)) →
      ∀ mode path, OrderedMap.get? (compose layers mode) path =
        OrderedMap.get? (compose (before ++ second :: first :: after) mode) path := by
  refine ⟨fun mode => ⟨nodup_keys_compose layers mode, fun path => mem_keys_compose, ?_,
    fun path token => get?_compose_eq_some_iff⟩, ?_⟩
  · rw [keys_compose, definitionOrder, tokensFor_eq_definitions]
    exact Lists.pairwise_idxOf_eraseDups _
  · rintro before first second after rfl h
    exact get?_compose_swap h before after

/-- A layer for all modes that defines a path twice. -/
def inkLayer : Layer :=
  ⟨"base", none, "tokens", true, "base.json",
    [⟨["ink"], some .color, .literal (.str "black"), "base", none⟩,
      ⟨["gap"], some .number, .literal (.int 4), "base", none⟩,
      ⟨["ink"], none, .reference ["gap"], "base", none⟩]⟩

/-- A layer for one mode that defines the path once more. -/
def tintLayer (mode tint : String) : Layer :=
  ⟨mode, some mode, "tokens", true, mode ++ ".json",
    [⟨["ink"], some .color, .literal (.str tint), mode, none⟩]⟩

theorem compose_by_layers_tinted :
    (∀ mode, ¬ (Selected (tintLayer "light" "navy") mode ∧
        Selected (tintLayer "dark" "white") mode)) ∧
      OrderedMap.keys
        (compose [inkLayer, tintLayer "light" "navy", tintLayer "dark" "white"] "light") =
          [["ink"], ["gap"]] ∧
      IsLast (definitions [inkLayer, tintLayer "light" "navy", tintLayer "dark" "white"] "light")
        ["ink"] ⟨["ink"], some .color, .literal (.str "navy"), "light", none⟩ ∧
      ∀ mode path,
        OrderedMap.get?
            (compose [inkLayer, tintLayer "light" "navy", tintLayer "dark" "white"] mode) path =
          OrderedMap.get?
            (compose [inkLayer, tintLayer "dark" "white", tintLayer "light" "navy"] mode) path := by
  obtain ⟨hmodes, hswap⟩ :=
    compose_by_layers [inkLayer, tintLayer "light" "navy", tintLayer "dark" "white"]
  have hnever (mode : String) :
      ¬ (Selected (tintLayer "light" "navy") mode ∧ Selected (tintLayer "dark" "white") mode) := by
    rintro ⟨hlight, hdark⟩
    have hmode : some "light" = some mode := hlight.resolve_left (by simp [tintLayer])
    have hmode' : some "dark" = some mode := hdark.resolve_left (by simp [tintLayer])
    exact absurd (hmode.trans hmode'.symm) (by decide)
  exact ⟨hnever, rfl, (hmodes "light").2.2.2 _ _ |>.mp rfl,
    hswap [inkLayer] _ _ [] rfl (.inr hnever)⟩

end DesignTokens.Cascade
