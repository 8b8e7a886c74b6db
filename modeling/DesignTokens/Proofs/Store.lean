import DesignTokens.Proofs.Document
import DesignTokens.Store
/-!
# Loading strictly and loading everything

A strict load stops at the first fault of a document that a gathering load finds.  A gathering load
goes on past faults of documents, and past nothing else.
-/

set_option autoImplicit false

namespace DesignTokens

/-- A failure of loading a layer: one that its document accounts for, or a layer with neither a
source nor data of its own. -/
inductive Failure.OfLayer : Failure → Prop where
  | document (identifier : String) {failure : Failure} (h : failure.OfDocument identifier) :
      OfLayer failure
  | withoutOrigin (name : String) : OfLayer (.error (.config (.layerWithoutOrigin name)))

/-- Loading a layer never fails with gathered errors. -/
theorem Failure.OfLayer.ne_collected {failure : Failure} (h : failure.OfLayer)
    (errors : List BuildError) : failure ≠ .collected errors := by
  cases h with
  | document identifier hdocument => cases hdocument <;> simp
  | withoutOrigin name => simp

/-- Loading a layer never fails for a style sheet. -/
theorem Failure.OfLayer.ne_missingEntry {failure : Failure} (h : failure.OfLayer) :
    failure ≠ .breakdown .missingEntry := by
  cases h with
  | document identifier hdocument =>
    cases hdocument with
    | fault fault place => simp
    | breakdown hcause => simpa using hcause
  | withoutOrigin name => simp

/-- Loading a layer never fails for a mode. -/
theorem Failure.OfLayer.ne_unknownMode {failure : Failure} (h : failure.OfLayer) (mode : String)
    (modes : List String) : failure ≠ .error (.config (.unknownMode mode modes)) := by
  cases h with
  | document identifier hdocument => cases hdocument <;> simp
  | withoutOrigin name => simp

/-- A layer that a source was loaded into: it stands in the cascade where the source says, and its
tokens carry its name. -/
structure Layer.ComesFrom (layer : Layer) (source : LayerSource) : Prop where
  name : layer.name = source.name
  mode : layer.mode = source.mode
  group : layer.group = source.group
  emit : layer.emit = source.emit
  tokens : ∀ token ∈ layer.tokens, token.layer = layer.name

namespace Store

variable {tree : FileTree} {store : Store} {failure : Failure}

/-! ## One layer -/

theorem parseText_ofDocument {identifier text : String}
    (h : parseText identifier text = .error failure) : failure.OfDocument identifier := by
  unfold parseText at h
  split at h
  · cases h
  · cases h
    exact .fault _ _
  · cases h
    exact .fault _ _
  · cases h
    exact .breakdown (by simp)

theorem parseFile_ofDocument {path : Path} {identifier : String}
    (h : parseFile tree path identifier = .error failure) : failure.OfDocument identifier := by
  unfold parseFile at h
  split at h
  · cases h
    exact .fault _ _
  · cases h
    exact .fault _ _
  · exact parseText_ofDocument h

theorem readDocument_ofDocument {path : Path} {identifier : String}
    (h : (store.readDocument tree path identifier).1 = .error failure) :
    failure.OfDocument identifier := by
  unfold readDocument at h
  split at h
  · cases h
    exact .fault _ _
  · simp only at h
    split at h
    · split at h
      · cases h
      · split at h
        · rename_i hparse
          cases h
          exact parseFile_ofDocument hparse
        · cases h
    · split at h
      · rename_i hparse
        cases h
        exact parseFile_ofDocument hparse
      · cases h

theorem sourceDocument_ofLayer {source : LayerSource}
    (h : (store.sourceDocument tree source).1 = .error failure) : failure.OfLayer := by
  unfold sourceDocument at h
  split at h
  · cases h
  · simp only at h
    split at h
    · cases h
      exact .document source.identifier (.breakdown (by simp))
    · simp only at h
      cases hread : (store.readDocument tree _ source.identifier).1 with
      | ok document =>
        rw [hread] at h
        cases h
      | error failure' =>
        rw [hread] at h
        cases h
        exact .document _ (readDocument_ofDocument hread)
    · split at h
      · cases h
      · cases h
        exact .document _ (.fault _ _)
  · cases h
    exact .withoutOrigin _

/-- How loading a layer can fail. -/
theorem loadLayer_ofLayer {source : LayerSource}
    (h : (store.loadLayer tree source).1 = .error failure) : failure.OfLayer := by
  unfold loadLayer at h
  split at h
  · rename_i failure' read hdocument
    cases h
    exact sourceDocument_ofLayer (congrArg Prod.fst hdocument)
  · cases h
  · rename_i document read hdocument
    simp only at h
    cases hlayer : layerOf source document with
    | ok layer =>
      rw [hlayer] at h
      cases h
    | error failure' =>
      rw [hlayer] at h
      cases h
      unfold layerOf at hlayer
      split at hlayer
      · rename_i failure' hflatten
        cases hlayer
        exact .document _ (Document.flatten_ofDocument hflatten)
      · cases hlayer

theorem layerOf_comesFrom {source : LayerSource} {document : Datum} {layer : Layer}
    (h : layerOf source document = .ok layer) : layer.ComesFrom source := by
  unfold layerOf at h
  split at h
  · cases h
  · rename_i tokens htokens
    cases h
    exact ⟨rfl, rfl, rfl, rfl, Document.layer_of_mem_flatten htokens⟩

theorem flatten_of_layerOf {source : LayerSource} {document : Datum} {layer : Layer}
    (h : layerOf source document = .ok layer) :
    Document.flatten ⟨source.name, source.identifier⟩ document = .ok layer.tokens := by
  unfold layerOf at h
  split at h
  · cases h
  · rename_i tokens htokens
    cases h
    exact htokens

/-- A layer that is loaded is made of a document. -/
theorem exists_document_of_loadLayer {source : LayerSource} {layer : Layer}
    (h : (store.loadLayer tree source).1 = .ok (some layer)) :
    ∃ document, layerOf source document = .ok layer := by
  unfold loadLayer at h
  split at h
  · cases h
  · cases h
  · rename_i document read hdocument
    simp only at h
    cases hlayer : layerOf source document with
    | error failure =>
      rw [hlayer] at h
      cases h
    | ok layer' =>
      rw [hlayer] at h
      cases h
      exact ⟨document, hlayer⟩

theorem loadLayer_comesFrom {source : LayerSource} {layer : Layer}
    (h : (store.loadLayer tree source).1 = .ok (some layer)) : layer.ComesFrom source := by
  obtain ⟨document, hlayer⟩ := exists_document_of_loadLayer h
  exact layerOf_comesFrom hlayer

/-! ## All layers -/

/-- After a source that loads, the rest is loaded. -/
theorem load_cons_of_ok {collect : Bool} {source : LayerSource} {rest : List LayerSource}
    {layer? : Option Layer} (h : (store.loadLayer tree source).1 = .ok layer?) :
    let later := load collect tree (store.loadLayer tree source).2 rest
    (load collect tree store (source :: rest)).layers = layer?.toList ++ later.layers ∧
      (load collect tree store (source :: rest)).errors = later.errors ∧
      (load collect tree store (source :: rest)).stopped = later.stopped := by
  rw [load]
  generalize store.loadLayer tree source = loaded at h ⊢
  obtain ⟨result, read⟩ := loaded
  simp only at h
  subst h
  exact ⟨rfl, rfl, rfl⟩

/-- Every layer that is loaded is loaded from one of the sources. -/
theorem exists_loadLayer_of_mem_layers {collect : Bool} {sources : List LayerSource}
    {layer : Layer} (h : layer ∈ (load collect tree store sources).layers) :
    ∃ source ∈ sources, ∃ before : Store,
      (before.loadLayer tree source).1 = .ok (some layer) := by
  induction sources generalizing store with
  | nil => cases h
  | cons source rest ih =>
    rw [load] at h
    have hfirst {layer' : Layer} (hlayer : (store.loadLayer tree source).1 = .ok (some layer')) :
        ∃ source' ∈ source :: rest, ∃ before : Store,
          (before.loadLayer tree source').1 = .ok (some layer') :=
      ⟨source, List.mem_cons_self, store, hlayer⟩
    have hrest {store' : Store} (hmem : layer ∈ (load collect tree store' rest).layers) :
        ∃ source' ∈ source :: rest, ∃ before : Store,
          (before.loadLayer tree source').1 = .ok (some layer) := by
      obtain ⟨source', hsource, hloaded⟩ := ih hmem
      exact ⟨source', List.mem_cons_of_mem _ hsource, hloaded⟩
    generalize store.loadLayer tree source = loaded at h hfirst
    obtain ⟨result, read⟩ := loaded
    simp only at h
    split at h
    · rename_i layer?
      cases List.mem_append.mp h with
      | inl hmem =>
        rw [Option.mem_toList] at hmem
        exact hfirst (by rw [hmem])
      | inr hmem => exact hrest hmem
    · split at h
      · exact hrest h
      · cases h
    · cases h

/-- Every loaded layer comes from a source. -/
theorem exists_source_of_mem_layers {collect : Bool} {sources : List LayerSource} {layer : Layer}
    (h : layer ∈ (load collect tree store sources).layers) :
    ∃ source ∈ sources, layer.ComesFrom source := by
  obtain ⟨source, hsource, _, hloaded⟩ := exists_loadLayer_of_mem_layers h
  exact ⟨source, hsource, loadLayer_comesFrom hloaded⟩

/-- The tokens of a loaded layer are those of a document. -/
theorem exists_flatten_of_mem_layers {collect : Bool} {sources : List LayerSource} {layer : Layer}
    (h : layer ∈ (load collect tree store sources).layers) :
    ∃ name document, Document.flatten name document = .ok layer.tokens := by
  obtain ⟨source, _, _, hloaded⟩ := exists_loadLayer_of_mem_layers h
  obtain ⟨document, hlayer⟩ := exists_document_of_loadLayer hloaded
  exact ⟨_, document, flatten_of_layerOf hlayer⟩

/-- All literals of the loaded layers are contained. -/
theorem contained_of_mem_layers {collect : Bool} {sources : List LayerSource} {layer : Layer}
    (h : layer ∈ (load collect tree store sources).layers) {token : Token}
    (htoken : token ∈ layer.tokens) {literal : Scalar} (hvalue : token.value = .literal literal) :
    literal.Contained := by
  obtain ⟨_, _, hflatten⟩ := exists_flatten_of_mem_layers h
  exact Document.contained_of_mem_flatten hflatten htoken hvalue

/-- A load is stopped by the failure of a layer. -/
theorem load_stopped_ofLayer {collect : Bool} {sources : List LayerSource}
    (h : (load collect tree store sources).stopped = some failure) : failure.OfLayer := by
  induction sources generalizing store with
  | nil => cases h
  | cons source rest ih =>
    rw [load] at h
    have hfailed {failure' : Failure} (hlayer : (store.loadLayer tree source).1 = .error failure') :=
      loadLayer_ofLayer hlayer
    generalize store.loadLayer tree source = loaded at h hfailed
    obtain ⟨result, read⟩ := loaded
    simp only at h
    split at h
    · exact ih h
    · split at h
      · exact ih h
      · cases h
        exact hfailed rfl
    · cases h
      exact hfailed rfl

/-- If a gathering load finds no fault, a strict load is the same, also where something else stops
it. -/
theorem load_strict_of_errors_eq_nil {sources : List LayerSource}
    (h : (load true tree store sources).errors = []) :
    load false tree store sources = load true tree store sources := by
  induction sources generalizing store with
  | nil => rfl
  | cons source rest ih =>
    rw [load] at h
    rw [load, load]
    generalize store.loadLayer tree source = loaded at h ⊢
    obtain ⟨result, read⟩ := loaded
    cases result with
    | ok layer? =>
      simp only at h ⊢
      rw [ih h]
    | error failure =>
      cases failure with
      | error e =>
        cases e with
        | document identifier fault place => cases h
        | _ => rfl
      | _ => rfl

/-- A strict load stops at the first fault that a gathering load finds, even if the gathering load
is stopped later. -/
theorem load_strict_of_errors_eq_cons {sources : List LayerSource} {first : BuildError}
    {others : List BuildError} (h : (load true tree store sources).errors = first :: others) :
    (load false tree store sources).stopped = some (.error first) := by
  induction sources generalizing store with
  | nil => cases h
  | cons source rest ih =>
    rw [load] at h ⊢
    generalize store.loadLayer tree source = loaded at h ⊢
    obtain ⟨result, read⟩ := loaded
    cases result with
    | ok layer? => exact ih h
    | error failure =>
      cases failure with
      | error e =>
        cases e with
        | document identifier fault place =>
          simp only [if_true, List.cons.injEq] at h
          obtain ⟨rfl, _⟩ := h
          rfl
        | _ => cases h
      | _ => cases h

/-- A strict load that goes through is what a gathering one is. -/
theorem load_strict_of_stopped_eq_none {sources : List LayerSource}
    (h : (load false tree store sources).stopped = none) :
    load false tree store sources = load true tree store sources := by
  cases hgathered : (load true tree store sources).errors with
  | nil => exact load_strict_of_errors_eq_nil hgathered
  | cons first others =>
    rw [load_strict_of_errors_eq_cons hgathered] at h
    cases h

/-- A load that goes through without a fault does so too when it gathers. -/
theorem load_gathering_of_clean {collect : Bool} {sources : List LayerSource}
    (hstopped : (load collect tree store sources).stopped = none)
    (herrors : (load collect tree store sources).errors = []) :
    (load true tree store sources).stopped = none ∧
      (load true tree store sources).errors = [] := by
  cases collect with
  | true => exact ⟨hstopped, herrors⟩
  | false =>
    rw [← load_strict_of_stopped_eq_none hstopped]
    exact ⟨hstopped, herrors⟩

end Store

end DesignTokens
