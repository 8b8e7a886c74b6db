import DesignTokens.Proofs.Store.Reuse
/-!
# Loading again

What loading leaves in the store is enough to load the same documents again without reading any of
them, as long as each of them is there as before and has not changed since.
-/

set_option autoImplicit false

namespace DesignTokens

/-- A path leads in both trees to something that was changed at the same time, or in both to
nothing. -/
structure FileTree.Untouched (path : Path) (tree after : FileTree) : Prop where
  found : after.findEntry path = tree.findEntry path
  changed : after.changedAt? path = tree.changedAt? path

namespace Store

variable {tree tree' : FileTree} {store after : Store} {path : Path} {identifier : String}
  {source : LayerSource}

/-! ## What is retained -/

/-- The documents that are kept, and have not changed, are still kept. -/
structure Retains (tree : FileTree) (store after : Store) : Prop where
  dataDir : after.dataDir = store.dataDir
  documents : ∀ path changed document,
    OrderedMap.get? store.documents path = some (changed, document) →
      tree.changedAt? path = some changed →
      OrderedMap.get? after.documents path = some (changed, document)

theorem Retains.refl (tree : FileTree) (store : Store) : store.Retains tree store :=
  ⟨rfl, fun _ _ _ h _ => h⟩

theorem Retains.trans {between : Store} (h : store.Retains tree between)
    (hafter : between.Retains tree after) : store.Retains tree after := by
  refine ⟨hafter.dataDir.trans h.dataDir, fun path changed document hget hchanged => ?_⟩
  exact hafter.documents path changed document (h.documents path changed document hget hchanged)
    hchanged

/-- A document that is kept under the time of its file is not read again. -/
theorem readDocument_of_kept {changed : Int} {document : Json}
    (hkept : OrderedMap.get? store.documents path = some (changed, document))
    (hchanged : tree.changedAt? path = some changed) (identifier : String) :
    store.readDocument tree path identifier = (.ok document, store) := by
  unfold readDocument
  unfold FileTree.changedAt? at hchanged
  cases hstat : tree.stat path with
  | error fault =>
    rw [hstat] at hchanged
    cases hchanged
  | ok entry =>
    rw [hstat] at hchanged
    simp only [hkept]
    rw [if_pos (Option.some.inj hchanged).symm]

/-- A document that is kept under another time than that of its file, or not at all, is read, and
kept if it can be. -/
theorem readDocument_of_not_kept {entry : Entry} (hstat : tree.stat path = .ok entry)
    (hnot : ∀ document, OrderedMap.get? store.documents path ≠ some (entry.changed, document))
    (identifier : String) :
    store.readDocument tree path identifier =
      match parseFile tree path identifier with
      | .error failure => (.error failure, store)
      | .ok document => (.ok document,
          { store with
            documents := OrderedMap.set store.documents path (entry.changed, document) }) := by
  unfold readDocument
  rw [hstat]
  cases hget : OrderedMap.get? store.documents path with
  | none => rfl
  | some kept =>
    obtain ⟨changed, document⟩ := kept
    have hother : changed ≠ entry.changed := by
      rintro rfl
      exact hnot document hget
    exact if_neg hother

/-- What reading a document does: it forgets nothing that is still true to its file's time, and keeps
what it has read. -/
theorem retains_readDocument (store : Store) (tree : FileTree) (path : Path)
    (identifier : String) :
    store.Retains tree (store.readDocument tree path identifier).2 ∧
      ∀ document, (store.readDocument tree path identifier).1 = .ok document →
        ∃ changed, tree.changedAt? path = some changed ∧
          OrderedMap.get? (store.readDocument tree path identifier).2.documents path =
            some (changed, document) := by
  cases hstat : tree.stat path with
  | error fault =>
    unfold readDocument
    rw [hstat]
    exact ⟨Retains.refl tree store, nofun⟩
  | ok entry =>
    have htime := FileTree.changedAt?_of_stat hstat
    by_cases hkept : ∃ document,
        OrderedMap.get? store.documents path = some (entry.changed, document)
    · obtain ⟨document, hdocument⟩ := hkept
      rw [readDocument_of_kept hdocument htime]
      refine ⟨Retains.refl tree store, fun other hother => ⟨_, htime, ?_⟩⟩
      rw [← Except.ok.inj hother]
      exact hdocument
    · rw [readDocument_of_not_kept hstat (not_exists.mp hkept)]
      cases parseFile tree path identifier with
      | error failure => exact ⟨Retains.refl tree store, nofun⟩
      | ok document =>
        refine ⟨⟨rfl, fun other changed kept hget hchanged => ?_⟩, fun other hother => ?_⟩
        · rw [OrderedMap.get?_set]
          -- The path that is set was kept under another time, if it was kept at all.
          by_cases heq : path = other
          · subst heq
            rw [htime, Option.some.injEq] at hchanged
            rw [← hchanged] at hget
            exact absurd ⟨kept, hget⟩ hkept
          · rw [if_neg heq]
            exact hget
        · refine ⟨_, htime, ?_⟩
          rw [OrderedMap.get?_set, if_pos rfl, ← Except.ok.inj hother]

theorem retains_loadLayer (store : Store) (tree : FileTree) (source : LayerSource) :
    store.Retains tree (store.loadLayer tree source).2 := by
  obtain hsame | ⟨path, _, hread⟩ := store_loadLayer store tree source
  · rw [hsame]
    exact Retains.refl tree store
  · rw [hread]
    exact (store.retains_readDocument tree path source.identifier).1

theorem retains_load (collect : Bool) (tree : FileTree) (store : Store)
    (sources : List LayerSource) :
    store.Retains tree (load collect tree store sources).store := by
  induction sources generalizing store with
  | nil => exact Retains.refl tree store
  | cons source rest ih =>
    have hfirst := retains_loadLayer store tree source
    obtain hstopped | hgoes := store_load_cons collect tree store source rest
    · rwa [hstopped]
    · rw [hgoes]
      exact hfirst.trans (ih _)

/-! ## Once more -/

/-- A document that was read is not read again. -/
theorem readDocument_again {document : Json}
    (h : (store.readDocument tree path identifier).1 = .ok document)
    (hretains : (store.readDocument tree path identifier).2.Retains tree after)
    (huntouched : FileTree.Untouched path tree tree') :
    after.readDocument tree' path identifier = (.ok document, after) := by
  obtain ⟨_, hkept⟩ := store.retains_readDocument tree path identifier
  obtain ⟨changed, htime, hget⟩ := hkept document h
  exact readDocument_of_kept (hretains.documents path changed document hget htime)
    (huntouched.changed.trans htime) identifier

/-- A source whose document was read, or was skipped, gives the same again and leaves the store. -/
theorem sourceDocument_again {document? : Option Datum}
    (h : (store.sourceDocument tree source).1 = .ok document?)
    (hretains : (store.sourceDocument tree source).2.Retains tree after)
    (huntouched : ∀ path ∈ source.documentPath? store.dataDir,
      FileTree.Untouched path tree tree') :
    after.sourceDocument tree' source = (.ok document?, after) := by
  unfold sourceDocument at h hretains ⊢
  unfold LayerSource.documentPath? at huntouched
  cases hdata : source.data with
  | some fields =>
    simp only [hdata] at h ⊢
    rw [h]
  | none =>
    cases hsource : source.source with
    | none =>
      simp only [hdata, hsource] at h
      cases h
    | some relative =>
      simp only [hdata, hsource, Option.map_some, Option.mem_def, Option.some.injEq,
        forall_eq'] at h hretains huntouched ⊢
      have hfound := huntouched.found
      cases hentry : tree.findEntry (store.dataDir.join (Path.ofString relative)) with
      | error fault =>
        simp only [hentry] at h
        cases h
      | ok there =>
        cases there with
        | true =>
          simp only [hentry] at h hretains
          have hread := (store.retains_readDocument tree
            (store.dataDir.join (Path.ofString relative)) source.identifier).1
          have hdataDir : after.dataDir = store.dataDir := hretains.dataDir.trans hread.dataDir
          cases hdocument : (store.readDocument tree
              (store.dataDir.join (Path.ofString relative)) source.identifier).1 with
          | error failure =>
            rw [hdocument] at h
            cases h
          | ok document =>
            rw [hdocument] at h
            simp only [hdataDir, hfound, hentry,
              readDocument_again hdocument hretains huntouched]
            rw [← Except.ok.inj h]
            rfl
        | false =>
          simp only [hentry] at h hretains
          split at h
          · rename_i hskippable
            rw [if_pos hskippable] at hretains
            simp only [hretains.dataDir, hfound, hentry, if_pos hskippable]
            rw [← Except.ok.inj h]
          · cases h

/-- So does its layer. -/
theorem loadLayer_again {layer? : Option Layer} (h : (store.loadLayer tree source).1 = .ok layer?)
    (hretains : (store.loadLayer tree source).2.Retains tree after)
    (huntouched : ∀ path ∈ source.documentPath? store.dataDir,
      FileTree.Untouched path tree tree') :
    after.loadLayer tree' source = (.ok layer?, after) := by
  have hstore : (store.loadLayer tree source).2 = (store.sourceDocument tree source).2 := by
    unfold loadLayer
    split <;> rename_i heq <;> rw [heq]
  rw [hstore] at hretains
  cases hdocument : (store.sourceDocument tree source).1 with
  | error failure =>
    rw [loadLayer_of_sourceDocument_error hdocument] at h
    cases h
  | ok document? =>
    have hsame : (after.loadLayer tree' source).1 = (store.loadLayer tree source).1 := by
      refine loadLayer_congr ?_
      rw [sourceDocument_again hdocument hretains huntouched, hdocument]
    have hleft : (after.loadLayer tree' source).2 = after := by
      unfold loadLayer
      rw [sourceDocument_again hdocument hretains huntouched]
      cases document? <;> rfl
    exact Prod.ext (hsame.trans h) hleft

/-- A load that goes through gives the same again, from any store that has retained what it left, and
leaves that store as it is. -/
theorem load_again {collect : Bool} {sources : List LayerSource}
    (hstopped : (load collect tree store sources).stopped = none)
    (herrors : (load collect tree store sources).errors = [])
    (hretains : (load collect tree store sources).store.Retains tree after)
    (huntouched : ∀ source ∈ sources, ∀ path ∈ source.documentPath? store.dataDir,
      FileTree.Untouched path tree tree') (collect' : Bool) :
    load collect' tree' after sources = { load collect tree store sources with store := after } := by
  induction sources generalizing store with
  | nil => rfl
  | cons source rest ih =>
    have hdataDir := dataDir_loadLayer store tree source
    have hlater := retains_load collect tree (store.loadLayer tree source).2 rest
    have hfirst (layer? : Option Layer) (hlayer : (store.loadLayer tree source).1 = .ok layer?)
        (hrest : (store.loadLayer tree source).2.Retains tree after) :=
      loadLayer_again hlayer hrest (huntouched source List.mem_cons_self)
    have hdir : (store.loadLayer tree source).2.Retains tree after →
        after.dataDir = store.dataDir := fun hrest => hrest.dataDir.trans hdataDir
    rw [load] at hstopped herrors hretains ⊢
    rw [load]
    generalize store.loadLayer tree source = loaded at *
    obtain ⟨result, read⟩ := loaded
    cases result with
    | ok layer? =>
      simp only at hstopped herrors hretains ⊢
      have hread : read.Retains tree after := hlater.trans hretains
      have hlines (result : Except Failure (Option Layer)) :
          after.loadLines source result = store.loadLines source result := by
        unfold loadLines
        rw [hdir hread]
      have hrest := ih hstopped herrors hretains fun source' hsource' path hpath =>
        huntouched source' (List.mem_cons_of_mem _ hsource') path (hdataDir ▸ hpath)
      rw [hfirst layer? rfl hread]
      simp only [hrest, hlines]
    | error failure =>
      cases failure with
      | error e =>
        cases e with
        | document name fault place =>
          cases collect with
          | true => exact absurd herrors (List.cons_ne_nil _ _)
          | false => cases hstopped
        | _ => cases hstopped
      | _ => cases hstopped

end Store

end DesignTokens
