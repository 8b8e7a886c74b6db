import DesignTokens.Proofs.Document.Flatten
import DesignTokens.Proofs.Store.Failures
/-!
# What breaks the loading of documents

Most of what is wrong with a document is a fault that is reported under its name.  Loading breaks
down only for a file name that is too long, for an integer with more digits than are read, and for
data inside the settings that no JSON document has: keys that are no texts, days and moments, and
integers that are too long to be shown where a type is declared.
-/

set_option autoImplicit false

namespace DesignTokens

/-! ## Flattening -/

namespace Document

/-- A document as JSON has them, which a message can show, is flattened or has a fault. -/
theorem flatten_ne_breakdown {name : DocumentName} {document : Datum}
    (hlike : document.isDocumentLike = true) (hshowable : document.isShowable = true)
    (cause : Breakdown) : flatten name document ≠ .error (.breakdown cause) := by
  intro hbroken
  cases document with
  | map root =>
    have htells : Tells name (walk root) (flatten name (.map root)) := tells_flatten hlike
    rw [hbroken] at htells
    obtain ⟨sight, fault, hfirst, hfault⟩ := htells
    rw [hfirst.faultAt_eq hshowable name] at hfault
    cases hfault
  | _ => cases hbroken

/-- A document that is read from a text is flattened or has a fault. -/
theorem flatten_ne_breakdown_of_read {policy : Json.KeyPolicy} {text : String} {json : Json}
    (h : Json.read policy text = .ok json) (name : DocumentName) (cause : Breakdown) :
    flatten name (.ofJson json) ≠ .error (.breakdown cause) := by
  refine flatten_ne_breakdown (Datum.isDocumentLike_ofJson json) ?_ cause
  rw [Datum.isShowable_ofJson]
  exact Json.isRenderable_of_read h

end Document

/-! ## Layers -/

/-- What a document is called that a layer is loaded from. -/
def LayerSource.documentName (source : LayerSource) : DocumentName :=
  ⟨source.name, source.identifier⟩

/-- The source of a layer breaks its loading, with what a store keeps: its path has a name that is
too long, its document is not kept and has an integer that is too long, or the walk through its data
or its kept document comes to something that no document has. -/
inductive LayerSource.BreaksLoading (source : LayerSource) (store : Store) (tree : FileTree) :
    Breakdown → Prop where
  | name (path : Path) (fault : FileFault)
      (hpath : source.documentPath? store.dataDir = some path)
      (hfind : tree.findEntry path = .error fault) : BreaksLoading source store tree (.file fault)
  | integer (path : Path) (text : String)
      (hpath : source.documentPath? store.dataDir = some path)
      (hkept : store.kept? tree path = none) (htext : tree.readText path = .ok text)
      (hread : Json.read .refuse text = .error .integerTooLong) :
      BreaksLoading source store tree .integerTooLong
  | data (cause : Breakdown) (fields : Datum.Pairs) (hdata : source.data = some fields)
      (hflatten : Document.flatten source.documentName (.map fields) =
        .error (.breakdown cause)) : BreaksLoading source store tree cause
  | kept (cause : Breakdown) (path : Path) (json : Json)
      (hpath : source.documentPath? store.dataDir = some path)
      (hkept : store.kept? tree path = some json)
      (hflatten : Document.flatten source.documentName (.ofJson json) =
        .error (.breakdown cause)) : BreaksLoading source store tree cause

namespace Store

variable {store : Store} {tree : FileTree} {source : LayerSource} {path : Path}
  {cause : Breakdown}

/-! ### Documents -/

/-- A path without an entry has no document that is kept. -/
theorem exists_stat_of_kept? {json : Json} (h : store.kept? tree path = some json) :
    ∃ entry, tree.stat path = .ok entry := by
  unfold kept? at h
  split at h
  · exact ⟨_, ‹_›⟩
  · cases h

theorem findEntry_of_stat {entry : Entry} (h : tree.stat path = .ok entry) :
    tree.findEntry path = .ok true := by
  unfold FileTree.findEntry
  rw [h]

/-- Reading a document anew breaks down for an integer only. -/
theorem freshDocument_eq_breakdown_iff {identifier : String} :
    freshDocument tree path identifier = .error (.breakdown cause) ↔
      cause = .integerTooLong ∧ ∃ text, tree.readText path = .ok text ∧
        Json.read .refuse text = .error .integerTooLong := by
  constructor
  · intro h
    unfold freshDocument parseFile parseText at h
    split at h
    · cases h
    · split at h
      · cases h
      · cases h
      · rename_i text htext
        split at h
        · cases h
        · cases h
        · cases h
        · rename_i hread
          cases h
          exact ⟨rfl, text, htext, hread⟩
  · rintro ⟨rfl, text, htext, hread⟩
    obtain ⟨entry, hstat⟩ := exists_stat_of_readText htext
    unfold freshDocument parseFile parseText
    rw [hstat, htext]
    simp only [hread]

theorem readDocument_eq_breakdown_iff {identifier : String} :
    (store.readDocument tree path identifier).1 = .error (.breakdown cause) ↔
      store.kept? tree path = none ∧ cause = .integerTooLong ∧
        ∃ text, tree.readText path = .ok text ∧ Json.read .refuse text = .error .integerTooLong := by
  rw [readDocument_eq]
  cases store.kept? tree path with
  | some json => exact iff_of_false nofun nofun
  | none => exact freshDocument_eq_breakdown_iff.trans (and_iff_right rfl).symm

/-- What is read anew has nothing that breaks the walk, so a document that breaks it is kept. -/
theorem kept?_of_flatten_readDocument {identifier : String} {name : DocumentName} {json : Json}
    (hread : (store.readDocument tree path identifier).1 = .ok json)
    (hflatten : Document.flatten name (.ofJson json) = .error (.breakdown cause)) :
    store.kept? tree path = some json := by
  rw [readDocument_eq] at hread
  cases hkept : store.kept? tree path with
  | some kept =>
    rw [hkept] at hread
    cases hread
    rfl
  | none =>
    rw [hkept] at hread
    obtain ⟨text, _, htext⟩ := holdsDocument_of_freshDocument hread
    exact absurd hflatten (Document.flatten_ne_breakdown_of_read htext name cause)

theorem sourceDocument_of_data {fields : Datum.Pairs} (h : source.data = some fields) :
    (store.sourceDocument tree source).1 = .ok (some (.map fields)) := by
  unfold sourceDocument
  rw [h]

theorem sourceDocument_of_path (hpath : source.documentPath? store.dataDir = some path) :
    (store.sourceDocument tree source).1 =
      match tree.findEntry path with
      | .error fault => .error (.breakdown (.file fault))
      | .ok true => (store.readDocument tree path source.identifier).1.map fun json =>
          some (.ofJson json)
      | .ok false =>
        if source.skippable then .ok none
        else .error (documentFailure source.identifier .notFound) := by
  unfold LayerSource.documentPath? at hpath
  unfold sourceDocument
  split at hpath
  · cases hpath
  · rename_i hdata
    obtain ⟨relative, hrelative, hjoined⟩ := Option.map_eq_some_iff.mp hpath
    rw [hdata, hrelative]
    simp only [hjoined]
    cases tree.findEntry path with
    | error fault => rfl
    | ok found =>
      cases found with
      | true => rfl
      | false =>
        simp only
        split <;> rfl

/-- A layer breaks down as its document does, or with the walk through its document. -/
theorem loadLayer_eq_breakdown_iff_document :
    (store.loadLayer tree source).1 = .error (.breakdown cause) ↔
      (store.sourceDocument tree source).1 = .error (.breakdown cause) ∨
        ∃ document, (store.sourceDocument tree source).1 = .ok (some document) ∧
          Document.flatten source.documentName document = .error (.breakdown cause) := by
  have hlayer (document : Datum) : (layerOf source document).map some =
      .error (.breakdown cause) ↔
        Document.flatten source.documentName document = .error (.breakdown cause) := by
    unfold layerOf LayerSource.documentName
    cases Document.flatten ⟨source.name, source.identifier⟩ document with
    | ok tokens => exact iff_of_false nofun nofun
    | error failure => simp [Except.map]
  cases hdocument : (store.sourceDocument tree source).1 with
  | error failure => simp [loadLayer_of_sourceDocument_error hdocument]
  | ok document? =>
    cases document? with
    | some document =>
      rw [loadLayer_of_sourceDocument hdocument, hlayer]
      simp
    | none =>
      have hskipped : (store.loadLayer tree source).1 = .ok none := by
        unfold loadLayer
        generalize store.sourceDocument tree source = loaded at hdocument ⊢
        obtain ⟨result, read⟩ := loaded
        simp only at hdocument
        subst hdocument
        rfl
      simp [hskipped]

/-- Data inside the settings break down with the walk through them. -/
theorem loadLayer_eq_breakdown_iff_of_data {fields : Datum.Pairs} (hdata : source.data = some fields) :
    (store.loadLayer tree source).1 = .error (.breakdown cause) ↔
      source.BreaksLoading store tree cause := by
  have hpath : source.documentPath? store.dataDir = none := by
    unfold LayerSource.documentPath?
    rw [hdata]
  rw [loadLayer_eq_breakdown_iff_document, sourceDocument_of_data hdata]
  constructor
  · rintro (hbroken | ⟨document, hdocument, hflatten⟩)
    · cases hbroken
    · cases hdocument
      exact .data cause fields hdata hflatten
  · intro h
    cases h with
    | name path fault hpath' _ => simp [hpath] at hpath'
    | integer path text hpath' _ _ _ => simp [hpath] at hpath'
    | data _ fields' hdata' hflatten =>
      rw [hdata, Option.some.injEq] at hdata'
      subst hdata'
      exact .inr ⟨_, rfl, hflatten⟩
    | kept _ path json hpath' _ _ => simp [hpath] at hpath'

/-- A document of a file breaks down with its name, its text, or the walk through what is kept of
it; one that is read anew has nothing that breaks the walk. -/
theorem loadLayer_eq_breakdown_iff_of_path (hpath : source.documentPath? store.dataDir = some path) :
    (store.loadLayer tree source).1 = .error (.breakdown cause) ↔
      source.BreaksLoading store tree cause := by
  have hdata : source.data = none := by
    unfold LayerSource.documentPath? at hpath
    split at hpath
    · cases hpath
    · assumption
  rw [loadLayer_eq_breakdown_iff_document, sourceDocument_of_path hpath]
  constructor
  · cases hfind : tree.findEntry path with
    | error fault =>
      rintro (hbroken | ⟨document, hdocument, _⟩)
      · cases hbroken
        exact .name path fault hpath hfind
      · cases hdocument
    | ok found =>
      cases found with
      | true =>
        cases hread : (store.readDocument tree path source.identifier).1 with
        | error failure =>
          rintro (hbroken | ⟨document, hdocument, _⟩)
          · cases hbroken
            obtain ⟨hkept, rfl, text, htext, hlong⟩ := readDocument_eq_breakdown_iff.mp hread
            exact .integer path text hpath hkept htext hlong
          · cases hdocument
        | ok json =>
          rintro (hbroken | ⟨document, hdocument, hflatten⟩)
          · cases hbroken
          · cases hdocument
            exact .kept cause path json hpath (kept?_of_flatten_readDocument hread hflatten)
              hflatten
      | false =>
        simp only
        split
        · rintro (hbroken | ⟨document, hdocument, _⟩)
          · cases hbroken
          · cases hdocument
        · rintro (hbroken | ⟨document, hdocument, _⟩)
          · cases hbroken
          · cases hdocument
  · intro h
    cases h with
    | name path' fault hpath' hfind =>
      obtain rfl := Option.some.inj (hpath.symm.trans hpath')
      exact .inl (by rw [hfind])
    | integer path' text hpath' hkept htext hlong =>
      obtain rfl := Option.some.inj (hpath.symm.trans hpath')
      obtain ⟨entry, hstat⟩ := exists_stat_of_readText htext
      have hread : (store.readDocument tree path source.identifier).1 =
          .error (.breakdown .integerTooLong) :=
        readDocument_eq_breakdown_iff.mpr ⟨hkept, rfl, text, htext, hlong⟩
      refine .inl ?_
      rw [findEntry_of_stat hstat, hread]
      rfl
    | data _ fields hdata' _ =>
      rw [hdata] at hdata'
      cases hdata'
    | kept _ path' json hpath' hkept hflatten =>
      obtain rfl := Option.some.inj (hpath.symm.trans hpath')
      obtain ⟨entry, hstat⟩ := exists_stat_of_kept? hkept
      refine .inr ⟨.ofJson json, ?_, hflatten⟩
      rw [findEntry_of_stat hstat, readDocument_eq, hkept]
      rfl

/-- Loading a layer breaks down exactly if its source does. -/
theorem loadLayer_eq_breakdown_iff :
    (store.loadLayer tree source).1 = .error (.breakdown cause) ↔
      source.BreaksLoading store tree cause := by
  cases hdata : source.data with
  | some fields => exact loadLayer_eq_breakdown_iff_of_data hdata
  | none =>
    cases hpath : source.documentPath? store.dataDir with
    | some path => exact loadLayer_eq_breakdown_iff_of_path hpath
    | none =>
      have hsource : source.source = none := by
        unfold LayerSource.documentPath? at hpath
        rw [hdata] at hpath
        exact Option.map_eq_none_iff.mp hpath
      have hdocument : (store.sourceDocument tree source).1 =
          .error (.error (.config (.layerWithoutOrigin source.name))) := by
        unfold sourceDocument
        rw [hdata, hsource]
      rw [loadLayer_of_sourceDocument_error hdocument]
      refine iff_of_false nofun fun h => ?_
      cases h with
      | name path fault hpath' _ => simp [hpath] at hpath'
      | integer path text hpath' _ _ _ => simp [hpath] at hpath'
      | data _ fields hdata' _ => simp [hdata] at hdata'
      | kept _ path json hpath' _ _ => simp [hpath] at hpath'

/-! ### All layers -/

/-- Loading breaks down at a source: those before it load, or a gathering load goes on past their
faults. -/
def BreaksAt (store : Store) (collect : Bool) (tree : FileTree) (sources : List LayerSource)
    (cause : Breakdown) : Prop :=
  ∃ before source after, sources = before ++ source :: after ∧
    source.BreaksLoading store tree cause ∧
    ∀ earlier ∈ before, ∀ failure, store.failure? tree earlier = some failure →
      collect = true ∧ failure.isFault = true

/-- Loading is stopped by a breakdown exactly where a source breaks. -/
theorem stopped_load_eq_breakdown_iff {collect : Bool} {sources : List LayerSource} :
    (load collect tree store sources).stopped = some (.breakdown cause) ↔
      store.BreaksAt collect tree sources cause := by
  rw [stopped_load_eq_some_iff fun _ => rfl]
  unfold BreaksAt
  simp only [loadLayer_eq_breakdown_iff, failure?_eq_some_iff]

end Store

end DesignTokens
