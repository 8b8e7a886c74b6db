import DesignTokens.Proofs.Config.Valid
import DesignTokens.Proofs.Store.Reuse
/-!
# Layers that fail to load

Whether a layer fails to load has nothing to do with the other layers.  A strict load stops at the
first layer that fails.  A gathering load goes on past layers whose documents have faults, and
gathers one fault for each of them; it stops at the first layer that breaks down.
-/

set_option autoImplicit false

namespace DesignTokens

/-- Whether a failure is the fault of a document. -/
def Failure.isFault : Failure → Bool
  | .error (.document _ _ _) => true
  | _ => false

namespace Store

variable {paths : List Path} {trees : List FileTree} {tree : FileTree} {store : Store}
  {source : LayerSource} {sources : List LayerSource} {failure : Failure}

/-! ## One layer -/

/-- The failure of a source that is loaded alone; a source that loads or is skipped has none. -/
def failure? (store : Store) (tree : FileTree) (source : LayerSource) : Option Failure :=
  match (store.loadLayer tree source).1 with
  | .ok _ => none
  | .error failure => some failure

theorem failure?_eq_some_iff :
    store.failure? tree source = some failure ↔
      (store.loadLayer tree source).1 = .error failure := by
  unfold failure?
  cases (store.loadLayer tree source).1 with
  | ok layer? => exact iff_of_false nofun nofun
  | error failure' => rw [Option.some.injEq, Except.error.injEq]

theorem sourceDocument_of_withoutOrigin {name : String}
    (h : (store.sourceDocument tree source).1 =
      .error (.error (.config (.layerWithoutOrigin name)))) : ¬source.HasOrigin := by
  unfold sourceDocument at h
  split at h
  · cases h
  · simp only at h
    split at h
    · cases h
    · simp only at h
      cases hread : (store.readDocument tree _ source.identifier).1 with
      | ok document =>
        rw [hread] at h
        cases h
      | error failure =>
        rw [hread] at h
        cases h
        cases readDocument_ofDocument hread
    · split at h
      · cases h
      · cases h
  · rename_i hdata hsource
    unfold LayerSource.HasOrigin
    rw [hdata, hsource]
    simp

/-- A layer that has an origin fails by a fault of its document or by breaking down. -/
theorem loadLayer_ofDocument (horigin : source.HasOrigin)
    (h : (store.loadLayer tree source).1 = .error failure) :
    ∃ identifier, failure.OfDocument identifier := by
  cases loadLayer_ofLayer h with
  | document identifier hdocument => exact ⟨identifier, hdocument⟩
  | withoutOrigin name =>
    unfold loadLayer at h
    split at h
    · rename_i failure read hdocument
      cases h
      exact absurd horigin (sourceDocument_of_withoutOrigin (congrArg Prod.fst hdocument))
    · cases h
    · rename_i document read hdocument
      cases hlayer : layerOf source document with
      | ok layer =>
        rw [hlayer] at h
        cases h
      | error failure =>
        rw [hlayer] at h
        cases h
        unfold layerOf at hlayer
        split at hlayer
        · rename_i hflatten
          cases hlayer
          cases Document.flatten_ofDocument hflatten
        · cases hlayer

/-! ## All layers -/

/-- The failures of the sources that fail alone, in order. -/
def failures (store : Store) (tree : FileTree) (sources : List LayerSource) : List Failure :=
  sources.filterMap (store.failure? tree)

theorem ReadsAlike.failures_eq {other : Store} (h : store.ReadsAlike tree other)
    (sources : List LayerSource) : store.failures tree sources = other.failures tree sources := by
  refine List.filterMap_congr fun source _ => ?_
  unfold failure?
  rw [h.loadLayer_eq source]

/-- The failures of a first source and of those after it. -/
theorem failures_cons (store : Store) (tree : FileTree) (source : LayerSource)
    (rest : List LayerSource) :
    store.failures tree (source :: rest) =
      (store.failure? tree source).toList ++
        (store.loadLayer tree source).2.failures tree rest := by
  rw [(readsAlike_loadLayer store tree source).failures_eq, failures, List.filterMap_cons]
  cases store.failure? tree source <;> rfl

/-- A gathering load gathers the faults up to the first failure that is none, and stops there. -/
theorem load_fails (store : Store) (tree : FileTree) (sources : List LayerSource) :
    (Store.load true tree store sources).errors.map Failure.error =
        (store.failures tree sources).takeWhile Failure.isFault ∧
      (Store.load true tree store sources).stopped =
        (store.failures tree sources).find? fun failure => !failure.isFault := by
  induction sources generalizing store with
  | nil => exact ⟨rfl, rfl⟩
  | cons source rest ih =>
    have hrest := ih (store.loadLayer tree source).2
    rw [failures_cons, failure?, Store.load]
    generalize store.loadLayer tree source = loaded at hrest ⊢
    obtain ⟨result, read⟩ := loaded
    simp only at hrest ⊢
    obtain ⟨herrors, hstopped⟩ := hrest
    cases result with
    | ok layer? => exact ⟨herrors, hstopped⟩
    | error failure =>
      cases failure with
      | error e =>
        cases e with
        | document name fault place =>
          refine ⟨?_, hstopped⟩
          exact congrArg (Failure.error (.document name fault place) :: ·) herrors
        | _ => exact ⟨rfl, rfl⟩
      | _ => exact ⟨rfl, rfl⟩

/-- A strict load stops at the first failure. -/
theorem stopped_load_strict (store : Store) (tree : FileTree) (sources : List LayerSource) :
    (Store.load false tree store sources).stopped = (store.failures tree sources).head? := by
  induction sources generalizing store with
  | nil => rfl
  | cons source rest ih =>
    have hrest := ih (store.loadLayer tree source).2
    rw [failures_cons, failure?, Store.load]
    generalize store.loadLayer tree source = loaded at hrest ⊢
    obtain ⟨result, read⟩ := loaded
    cases result with
    | ok layer? => exact hrest
    | error failure =>
      cases failure with
      | error e => cases e <;> rfl
      | _ => rfl

/-- Loading is stopped by the failure of a source that the load comes to: those before it load
alone, or a gathering load goes on past their faults. -/
theorem stopped_load_eq_some_iff {collect : Bool}
    (hstops : collect = true → failure.isFault = false) :
    (Store.load collect tree store sources).stopped = some failure ↔
      ∃ before source after, sources = before ++ source :: after ∧
        (store.loadLayer tree source).1 = .error failure ∧
        ∀ earlier ∈ before, ∀ other, (store.loadLayer tree earlier).1 = .error other →
          collect = true ∧ other.isFault = true := by
  have hcomes : (Store.load collect tree store sources).stopped =
      (store.failures tree sources).find? fun other => !(collect && other.isFault) := by
    cases collect with
    | true => exact (load_fails store tree sources).2
    | false =>
      rw [stopped_load_strict]
      cases store.failures tree sources <;> rfl
  have hpasses (earlier : LayerSource) :
      (!(store.failure? tree earlier).any fun other => !(collect && other.isFault)) = true ↔
        ∀ other, (store.loadLayer tree earlier).1 = .error other →
          collect = true ∧ other.isFault = true := by
    unfold failure?
    cases (store.loadLayer tree earlier).1 with
    | ok layer? => simp
    | error other => simp
  rw [hcomes, failures, List.find?_filterMap, Option.bind_eq_some_iff]
  constructor
  · rintro ⟨source, hfind, hfailure⟩
    obtain ⟨_, before, after, hsources, hbefore⟩ := List.find?_eq_some_iff_append.mp hfind
    exact ⟨before, source, after, hsources, failure?_eq_some_iff.mp hfailure,
      fun earlier hearlier => (hpasses earlier).mp (hbefore earlier hearlier)⟩
  · rintro ⟨before, source, after, hsources, hfailure, hbefore⟩
    rw [← failure?_eq_some_iff] at hfailure
    refine ⟨source, List.find?_eq_some_iff_append.mpr ⟨?_, before, after, hsources, ?_⟩, hfailure⟩
    · rw [hfailure]
      cases collect with
      | true => simp [hstops]
      | false => rfl
    · exact fun earlier hearlier => (hpasses earlier).mpr (hbefore earlier hearlier)

end Store

end DesignTokens
