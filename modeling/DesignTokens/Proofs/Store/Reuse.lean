import DesignTokens.Proofs.Store
import Mathlib.Data.List.Nodup
/-!
# Documents that are used again

A document is kept with the time of its file's last change.  As long as a path never holds two texts
under one time, what is kept of it is what the file holds, and loading with documents from before
gives what loading without any gives.
-/

set_option autoImplicit false

namespace DesignTokens

/-- The path of the document that a layer is loaded from; a layer with data of its own has none. -/
def LayerSource.documentPath? (dataDir : Path) (source : LayerSource) : Option Path :=
  match source.data with
  | some _ => none
  | none => source.source.map fun relative => dataDir.join (Path.ofString relative)

/-- The paths of all documents that layers are loaded from. -/
def Config.documentPaths (config : Config) : List Path :=
  config.layers.filterMap (LayerSource.documentPath? config.dataDir)

/-- The time of the last change of what a path leads to. -/
def FileTree.changedAt? (tree : FileTree) (path : Path) : Option Int :=
  (tree.stat path).toOption.map Entry.changed

theorem FileTree.changedAt?_of_stat {tree : FileTree} {path : Path} {entry : Entry}
    (h : tree.stat path = .ok entry) : tree.changedAt? path = some entry.changed := by
  unfold changedAt?
  rw [h]
  rfl

/-- No path holds two texts under one time, whichever of the trees it is looked up in. -/
def FileTree.Dated (paths : List Path) (trees : List FileTree) : Prop :=
  ∀ path ∈ paths, ∀ first ∈ trees, ∀ second ∈ trees, (first.changedAt? path).isSome →
    first.changedAt? path = second.changedAt? path → first.readText path = second.readText path

instance (paths : List Path) (trees : List FileTree) : Decidable (FileTree.Dated paths trees) :=
  inferInstanceAs (Decidable (∀ path ∈ paths, ∀ first ∈ trees, ∀ second ∈ trees,
    (first.changedAt? path).isSome → first.changedAt? path = second.changedAt? path →
      first.readText path = second.readText path))

/-- A single tree holds one text at a path. -/
theorem FileTree.dated_singleton (paths : List Path) (tree : FileTree) : Dated paths [tree] := by
  intro path _ first hfirst second hsecond _ _
  rw [List.mem_singleton.mp hfirst, List.mem_singleton.mp hsecond]

/-- A path holds a document if its text is one. -/
def FileTree.HoldsDocument (tree : FileTree) (path : Path) (document : Json) : Prop :=
  ∃ text, tree.readText path = .ok text ∧ Json.read .refuse text = .ok document

/-- Two trees hold the same at a path, though not always since the same time. -/
structure FileTree.SameAt (path : Path) (tree tree' : FileTree) : Prop where
  entry : (tree.stat path).map (fun _ => ()) = (tree'.stat path).map (fun _ => ())
  text : tree.readText path = tree'.readText path

/-- Trees that hold the same at a path both have an entry there, or miss it for the same reason. -/
theorem FileTree.SameAt.stat_cases {path : Path} {tree tree' : FileTree}
    (h : SameAt path tree tree') :
    (∃ entry entry', tree.stat path = .ok entry ∧ tree'.stat path = .ok entry') ∨
      ∃ fault, tree.stat path = .error fault ∧ tree'.stat path = .error fault := by
  have hentry := h.entry
  cases hstat : tree.stat path with
  | ok entry =>
    cases hstat' : tree'.stat path with
    | ok entry' => exact .inl ⟨entry, entry', rfl, rfl⟩
    | error fault' =>
      rw [hstat, hstat'] at hentry
      cases hentry
  | error fault =>
    cases hstat' : tree'.stat path with
    | ok entry' =>
      rw [hstat, hstat'] at hentry
      cases hentry
    | error fault' =>
      rw [hstat, hstat'] at hentry
      cases hentry
      exact .inr ⟨fault, rfl, rfl⟩

theorem FileTree.SameAt.findEntry_eq {path : Path} {tree tree' : FileTree}
    (h : SameAt path tree tree') : tree.findEntry path = tree'.findEntry path := by
  unfold findEntry
  obtain ⟨entry, entry', hstat, hstat'⟩ | ⟨fault, hstat, hstat'⟩ := h.stat_cases
  · rw [hstat, hstat']
  · rw [hstat, hstat']

/-- Two loads that yield the same; what they leave in the store may differ. -/
structure Loading.Alike (first second : Loading) : Prop where
  layers : first.layers = second.layers
  errors : first.errors = second.errors
  stopped : first.stopped = second.stopped

theorem FileTree.holdsDocument_of_bytes {tree : FileTree} {path : Path} {text : String}
    {document : Json} (hbytes : tree.readBytes path = .ok text.toUTF8)
    (htext : FileTree.decodeText text.toUTF8 = some text)
    (hread : Json.read .refuse text = .ok document) : tree.HoldsDocument path document := by
  refine ⟨text, ?_, hread⟩
  unfold readText
  rw [hbytes]
  simp only [htext]

namespace Store

variable {paths : List Path} {trees : List FileTree} {tree : FileTree} {store : Store}
  {path : Path} {identifier : String} {source : LayerSource}

theorem parseText_eq_ok_iff {text : String} {document : Json} :
    parseText identifier text = .ok document ↔ Json.read .refuse text = .ok document := by
  unfold parseText
  split
  · rename_i found hread
    rw [hread, Except.ok.injEq, Except.ok.injEq]
  · rename_i hread
    simp [hread]
  · rename_i hread
    simp [hread]
  · rename_i hread
    simp [hread]

/-- Whether a file holds a document does not depend on what messages call it. -/
theorem parseFile_eq_ok_iff {document : Json} :
    parseFile tree path identifier = .ok document ↔ tree.HoldsDocument path document := by
  unfold parseFile FileTree.HoldsDocument
  split
  · rename_i hread
    simp [hread]
  · rename_i hread
    simp [hread]
  · rename_i text hread
    rw [parseText_eq_ok_iff]
    constructor
    · intro hdocument
      exact ⟨text, hread, hdocument⟩
    · rintro ⟨other, hother, hdocument⟩
      rw [hread, Except.ok.injEq] at hother
      rwa [hother]

/-! ## What is kept -/

/-- What is kept of a path is what the path holds in every tree in which it has the time that it is
kept with. -/
def Faithful (trees : List FileTree) (store : Store) : Prop :=
  ∀ path changed document, OrderedMap.get? store.documents path = some (changed, document) →
    ∀ tree ∈ trees, ∀ entry, tree.stat path = .ok entry → entry.changed = changed →
      tree.HoldsDocument path document

theorem faithful_of_documents_eq_nil (h : store.documents = []) : Faithful trees store := by
  intro path changed document hget
  rw [h] at hget
  cases hget

/-- The document at a path, read without anything kept. -/
def freshDocument (tree : FileTree) (path : Path) (identifier : String) : Except Failure Json :=
  match tree.stat path with
  | .error fault => .error (documentFailure identifier (.unreadable fault))
  | .ok _ => parseFile tree path identifier

/-- Trees that hold the same at a path have the same document there. -/
theorem freshDocument_congr {tree' : FileTree} (h : FileTree.SameAt path tree tree')
    (identifier : String) :
    freshDocument tree path identifier = freshDocument tree' path identifier := by
  unfold freshDocument parseFile
  obtain ⟨entry, entry', hstat, hstat'⟩ | ⟨fault, hstat, hstat'⟩ := h.stat_cases
  · rw [hstat, hstat', h.text]
  · rw [hstat, hstat']

/-- Where a text is, there is an entry. -/
theorem exists_stat_of_readText {text : String} (h : tree.readText path = .ok text) :
    ∃ entry, tree.stat path = .ok entry := by
  cases hstat : tree.stat path with
  | ok entry => exact ⟨entry, rfl⟩
  | error fault =>
    unfold FileTree.readText FileTree.readBytes at h
    rw [hstat] at h
    cases h

theorem exists_stat_of_holdsDocument {document : Json} (h : tree.HoldsDocument path document) :
    ∃ entry, tree.stat path = .ok entry := by
  obtain ⟨text, hread, _⟩ := h
  exact exists_stat_of_readText hread

/-- The document that a path holds is the one that is read there. -/
theorem freshDocument_of_holdsDocument {document : Json} (h : tree.HoldsDocument path document)
    (identifier : String) : freshDocument tree path identifier = .ok document := by
  obtain ⟨entry, hstat⟩ := exists_stat_of_holdsDocument h
  unfold freshDocument
  rw [hstat]
  exact parseFile_eq_ok_iff.mpr h

theorem holdsDocument_of_freshDocument {document : Json}
    (h : freshDocument tree path identifier = .ok document) : tree.HoldsDocument path document := by
  unfold freshDocument at h
  split at h
  · cases h
  · exact parseFile_eq_ok_iff.mp h

/-- The document that is kept of a path under the time that the path has. -/
def kept? (store : Store) (tree : FileTree) (path : Path) : Option Json :=
  match tree.stat path, OrderedMap.get? store.documents path with
  | .ok entry, some (changed, document) => if changed = entry.changed then some document else none
  | _, _ => none

theorem kept?_set (store : Store) {entry : Entry} (hstat : tree.stat path = .ok entry)
    (document : Json) (other : Path) :
    kept? ⟨store.dataDir, OrderedMap.set store.documents path (entry.changed, document)⟩ tree
        other = if path = other then some document else store.kept? tree other := by
  unfold kept?
  rw [OrderedMap.get?_set]
  by_cases hother : path = other
  · subst hother
    simp only [hstat, if_true]
  · rw [if_neg hother, if_neg hother]

/-- A document is read anew unless it is kept. -/
theorem readDocument_eq (store : Store) (tree : FileTree) (path : Path) (identifier : String) :
    (store.readDocument tree path identifier).1 =
      match store.kept? tree path with
      | some document => .ok document
      | none => freshDocument tree path identifier := by
  unfold readDocument kept? freshDocument
  cases tree.stat path with
  | error fault => rfl
  | ok entry =>
    cases OrderedMap.get? store.documents path with
    | none =>
      simp only
      cases parseFile tree path identifier <;> rfl
    | some kept =>
      obtain ⟨changed, document⟩ := kept
      simp only
      by_cases hchanged : changed = entry.changed
      · rw [if_pos hchanged, if_pos hchanged]
      · rw [if_neg hchanged, if_neg hchanged]
        cases parseFile tree path identifier <;> rfl

/-- What is kept makes no difference to what is read. -/
theorem Faithful.readDocument_eq (h : Faithful trees store) (htree : tree ∈ trees) :
    (store.readDocument tree path identifier).1 = freshDocument tree path identifier := by
  rw [Store.readDocument_eq]
  cases hkept : store.kept? tree path with
  | none => rfl
  | some document =>
    -- What is kept counts only under the time at which it was read, where it is the file's own.
    unfold kept? at hkept
    split at hkept
    · rename_i entry changed document' hstat hget
      split at hkept
      · rename_i hchanged
        cases hkept
        have hholds := h path changed document hget tree htree entry hstat hchanged.symm
        exact (freshDocument_of_holdsDocument hholds identifier).symm
      · cases hkept
    · cases hkept

/-- What reading a document leaves: the store as it was, or with the document that the path
holds, under the time that it has, if none was kept under this time. -/
theorem store_readDocument (store : Store) (tree : FileTree) (path : Path) (identifier : String) :
    (store.readDocument tree path identifier).2 = store ∨
      ∃ entry document, tree.stat path = .ok entry ∧ tree.HoldsDocument path document ∧
        store.kept? tree path = none ∧
        (store.readDocument tree path identifier).2 =
          { store with
            documents := OrderedMap.set store.documents path (entry.changed, document) } := by
  unfold readDocument kept?
  cases hstat : tree.stat path with
  | error fault => exact .inl rfl
  | ok entry =>
    cases hparse : parseFile tree path identifier with
    | error failure =>
      left
      simp only
      split
      · split <;> rfl
      · rfl
    | ok document =>
      have hholds := parseFile_eq_ok_iff.mp hparse
      simp only
      split
      · split
        · exact .inl rfl
        · exact .inr ⟨entry, document, rfl, hholds, by simp [*], rfl⟩
      · exact .inr ⟨entry, document, rfl, hholds, by simp [*], rfl⟩

theorem Faithful.readDocument (h : Faithful trees store) (hdated : FileTree.Dated paths trees)
    (htree : tree ∈ trees) (hpath : path ∈ paths) (identifier : String) :
    Faithful trees (store.readDocument tree path identifier).2 := by
  obtain hsame | ⟨entry, document, hstat, ⟨text, hread, hdocument⟩, _, hset⟩ :=
    store_readDocument store tree path identifier
  · rwa [hsame]
  · rw [hset]
    intro other changed kept hget tree' htree' entry' hstat' hchanged
    rw [OrderedMap.get?_set] at hget
    -- The new entry is what this tree holds; any tree with the same time there holds the same text.
    by_cases hother : path = other
    · rw [if_pos hother, Option.some.injEq, Prod.mk.injEq] at hget
      obtain ⟨hentry, hkept⟩ := hget
      subst hother hentry hkept
      have htime := FileTree.changedAt?_of_stat hstat
      have htime' := FileTree.changedAt?_of_stat hstat'
      rw [hchanged] at htime'
      refine ⟨text, ?_, hdocument⟩
      rw [← hread]
      exact hdated path hpath tree' htree' tree htree (by rw [htime']; rfl)
        (htime'.trans htime.symm)
    · rw [if_neg hother] at hget
      exact h other changed kept hget tree' htree' entry' hstat' hchanged

theorem dataDir_readDocument (store : Store) (tree : FileTree) (path : Path)
    (identifier : String) :
    (store.readDocument tree path identifier).2.dataDir = store.dataDir := by
  obtain hsame | ⟨_, _, _, _, _, hset⟩ := store_readDocument store tree path identifier
  · rw [hsame]
  · rw [hset]

/-- Stores that read the same from the files of a tree, whatever they keep. -/
structure ReadsAlike (store : Store) (tree : FileTree) (other : Store) : Prop where
  dataDir : store.dataDir = other.dataDir
  read : ∀ path identifier, (store.readDocument tree path identifier).1 =
    (other.readDocument tree path identifier).1

theorem Faithful.readsAlike (h : Faithful trees store) (htree : tree ∈ trees) :
    store.ReadsAlike tree (Store.new store.dataDir) := by
  have hnew : Faithful trees (Store.new store.dataDir) := faithful_of_documents_eq_nil rfl
  refine ⟨rfl, fun path identifier => ?_⟩
  rw [h.readDocument_eq htree, hnew.readDocument_eq htree]

/-- What is read once reads the same again. -/
theorem readsAlike_readDocument (store : Store) (tree : FileTree) (path : Path)
    (identifier : String) :
    (store.readDocument tree path identifier).2.ReadsAlike tree store := by
  refine ⟨dataDir_readDocument store tree path identifier, fun path' identifier' => ?_⟩
  obtain hsame | ⟨entry, document, hstat, hholds, hnone, hset⟩ :=
    store_readDocument store tree path identifier
  · rw [hsame]
  · rw [hset, readDocument_eq, readDocument_eq]
    rw [kept?_set store hstat]
    by_cases hpath : path = path'
    · subst hpath
      rw [if_pos rfl, hnone, freshDocument_of_holdsDocument hholds]
    · rw [if_neg hpath]

/-! ## One layer -/

/-- The document of a source is read, or given with the source. -/
theorem ReadsAlike.sourceDocument_eq {other : Store} (h : store.ReadsAlike tree other)
    (source : LayerSource) :
    (store.sourceDocument tree source).1 = (other.sourceDocument tree source).1 := by
  unfold sourceDocument
  simp only [h.dataDir]
  split
  · rfl
  · split
    · rfl
    · simp only [h.read]
    · split <;> rfl
  · rfl

/-- Where a source's path leads to an entry, its document is the one that is read there. -/
theorem Faithful.sourceDocument_of_stat (h : Faithful trees store) (htree : tree ∈ trees)
    {entry : Entry} (hpath : source.documentPath? store.dataDir = some path)
    (hstat : tree.stat path = .ok entry) :
    (store.sourceDocument tree source).1 =
      (parseFile tree path source.identifier).map fun json => some (.ofJson json) := by
  have hentry : tree.findEntry path = .ok true := by
    unfold FileTree.findEntry
    rw [hstat]
  have hread : (store.readDocument tree path source.identifier).1 =
      parseFile tree path source.identifier := by
    rw [h.readDocument_eq htree, freshDocument, hstat]
  unfold LayerSource.documentPath? at hpath
  unfold sourceDocument
  split at hpath
  · cases hpath
  · rename_i hdata
    obtain ⟨relative, hrelative, hjoined⟩ := Option.map_eq_some_iff.mp hpath
    rw [hdata, hrelative]
    simp only [hjoined, hentry, hread]

/-- A layer is made of the document of its source. -/
theorem loadLayer_of_sourceDocument {document : Datum}
    (h : (store.sourceDocument tree source).1 = .ok (some document)) :
    (store.loadLayer tree source).1 = (layerOf source document).map some := by
  unfold loadLayer
  generalize store.sourceDocument tree source = loaded at h ⊢
  obtain ⟨result, read⟩ := loaded
  simp only at h
  subst h
  rfl

/-- A layer fails to load as its document does. -/
theorem loadLayer_of_sourceDocument_error {failure : Failure}
    (h : (store.sourceDocument tree source).1 = .error failure) :
    (store.loadLayer tree source).1 = .error failure := by
  unfold loadLayer
  generalize store.sourceDocument tree source = loaded at h ⊢
  obtain ⟨result, read⟩ := loaded
  simp only at h
  subst h
  rfl

/-- A layer is made of the document at its path. -/
theorem Faithful.loadLayer_of_document (h : Faithful trees store) (htree : tree ∈ trees)
    {document : Json} (hpath : source.documentPath? store.dataDir = some path)
    (hdocument : tree.HoldsDocument path document) :
    (store.loadLayer tree source).1 = (layerOf source (.ofJson document)).map some := by
  obtain ⟨entry, hstat⟩ := exists_stat_of_holdsDocument hdocument
  refine loadLayer_of_sourceDocument ?_
  rw [h.sourceDocument_of_stat htree hpath hstat, parseFile_eq_ok_iff.mpr hdocument]
  rfl

theorem loadLayer_new_of_document {dataDir : Path} {document : Json} {layer : Layer}
    (hdocument : tree.HoldsDocument path document)
    (hpath : source.documentPath? dataDir = some path)
    (hlayer : layerOf source (.ofJson document) = .ok layer) :
    ((Store.new dataDir).loadLayer tree source).1 = .ok (some layer) := by
  have hnew : (Store.new dataDir).Faithful [tree] := faithful_of_documents_eq_nil rfl
  rw [hnew.loadLayer_of_document List.mem_cons_self hpath hdocument, hlayer]
  rfl

/-- What loading a layer leaves is what reading its document leaves. -/
theorem store_loadLayer (store : Store) (tree : FileTree) (source : LayerSource) :
    (store.loadLayer tree source).2 = store ∨
      ∃ path ∈ source.documentPath? store.dataDir,
        (store.loadLayer tree source).2 =
          (store.readDocument tree path source.identifier).2 := by
  have hsource : (store.loadLayer tree source).2 = (store.sourceDocument tree source).2 := by
    unfold loadLayer
    split <;> rename_i heq <;> rw [heq]
  rw [hsource]
  unfold sourceDocument LayerSource.documentPath?
  split
  · exact .inl rfl
  · rename_i relative hdata hrelative
    simp only
    split
    · exact .inl rfl
    · exact .inr ⟨_, by rw [hdata, hrelative]; rfl, rfl⟩
    · left
      split <;> rfl
  · exact .inl rfl

/-- The document of a source decides its layer. -/
theorem loadLayer_congr {store' : Store} {tree' : FileTree}
    (h : (store.sourceDocument tree source).1 = (store'.sourceDocument tree' source).1) :
    (store.loadLayer tree source).1 = (store'.loadLayer tree' source).1 := by
  unfold loadLayer
  generalize store.sourceDocument tree source = first at h ⊢
  generalize store'.sourceDocument tree' source = second at h ⊢
  obtain ⟨result, read⟩ := first
  obtain ⟨result', read'⟩ := second
  simp only at h
  subst h
  cases result with
  | error failure => rfl
  | ok document? => cases document? <;> rfl

theorem ReadsAlike.loadLayer_eq {other : Store} (h : store.ReadsAlike tree other)
    (source : LayerSource) :
    (store.loadLayer tree source).1 = (other.loadLayer tree source).1 :=
  loadLayer_congr (h.sourceDocument_eq source)

theorem Faithful.loadLayer_eq (h : Faithful trees store) (htree : tree ∈ trees)
    (source : LayerSource) :
    (store.loadLayer tree source).1 = ((Store.new store.dataDir).loadLayer tree source).1 :=
  (h.readsAlike htree).loadLayer_eq source

/-- What a layer leaves of its document makes no difference to the layers after it. -/
theorem readsAlike_loadLayer (store : Store) (tree : FileTree) (source : LayerSource) :
    (store.loadLayer tree source).2.ReadsAlike tree store := by
  obtain hsame | ⟨path, _, hread⟩ := store_loadLayer store tree source
  · rw [hsame]
    exact ⟨rfl, fun _ _ => rfl⟩
  · rw [hread]
    exact readsAlike_readDocument store tree path _

theorem Faithful.loadLayer (h : Faithful trees store) (hdated : FileTree.Dated paths trees)
    (htree : tree ∈ trees) (hpath : ∀ path ∈ source.documentPath? store.dataDir, path ∈ paths) :
    Faithful trees (store.loadLayer tree source).2 := by
  obtain hsame | ⟨path, hsource, hread⟩ := store_loadLayer store tree source
  · rwa [hsame]
  · rw [hread]
    exact h.readDocument hdated htree (hpath path hsource) _

theorem dataDir_loadLayer (store : Store) (tree : FileTree) (source : LayerSource) :
    (store.loadLayer tree source).2.dataDir = store.dataDir := by
  obtain hsame | ⟨path, _, hread⟩ := store_loadLayer store tree source
  · rw [hsame]
  · rw [hread, dataDir_readDocument]

/-! ## All layers -/

/-- The sources whose documents are among some paths. -/
def ReadsWithin (paths : List Path) (dataDir : Path) (sources : List LayerSource) : Prop :=
  ∀ source ∈ sources, ∀ path ∈ source.documentPath? dataDir, path ∈ paths

theorem readsWithin_documentPaths (config : Config) :
    ReadsWithin config.documentPaths config.dataDir config.layers := by
  intro source hsource path hpath
  exact List.mem_filterMap.mpr ⟨source, hsource, hpath⟩

variable {collect : Bool} {sources : List LayerSource}

/-- What loading leaves, layer by layer. -/
theorem store_load_cons (collect : Bool) (tree : FileTree) (store : Store) (source : LayerSource)
    (rest : List LayerSource) :
    (load collect tree store (source :: rest)).store = (store.loadLayer tree source).2 ∨
      (load collect tree store (source :: rest)).store =
        (load collect tree (store.loadLayer tree source).2 rest).store := by
  rw [load]
  generalize store.loadLayer tree source = loaded
  obtain ⟨result, read⟩ := loaded
  simp only
  split
  · exact .inr rfl
  · split
    · exact .inr rfl
    · exact .inl rfl
  · exact .inl rfl

/-- Loading keeps what is kept true, also when it is stopped. -/
theorem Faithful.load (h : Faithful trees store) (hdated : FileTree.Dated paths trees)
    (htree : tree ∈ trees) (hreads : ReadsWithin paths store.dataDir sources) :
    Faithful trees (load collect tree store sources).store := by
  induction sources generalizing store with
  | nil => exact h
  | cons source rest ih =>
    have hfirst : Faithful trees (store.loadLayer tree source).2 :=
      h.loadLayer hdated htree (hreads source List.mem_cons_self)
    obtain hstopped | hgoes := store_load_cons collect tree store source rest
    · rwa [hstopped]
    · rw [hgoes]
      refine ih hfirst fun source' hsource' => ?_
      rw [dataDir_loadLayer]
      exact hreads source' (List.mem_cons_of_mem _ hsource')

theorem dataDir_load (collect : Bool) (tree : FileTree) (store : Store)
    (sources : List LayerSource) :
    (Store.load collect tree store sources).store.dataDir = store.dataDir := by
  induction sources generalizing store with
  | nil => rfl
  | cons source rest ih =>
    obtain hstopped | hgoes := store_load_cons collect tree store source rest
    · rw [hstopped, dataDir_loadLayer]
    · rw [hgoes, ih, dataDir_loadLayer]

/-- Stores that keep true things load alike, whatever they keep. -/
theorem Faithful.load_alike {other : Store} (h : Faithful trees store)
    (hother : Faithful trees other) (hdir : store.dataDir = other.dataDir)
    (hdated : FileTree.Dated paths trees) (htree : tree ∈ trees)
    (hreads : ReadsWithin paths store.dataDir sources) :
    Loading.Alike (Store.load collect tree store sources)
      (Store.load collect tree other sources) := by
  induction sources generalizing store other with
  | nil => exact ⟨rfl, rfl, rfl⟩
  | cons source rest ih =>
    have hresult : (store.loadLayer tree source).1 = (other.loadLayer tree source).1 := by
      rw [h.loadLayer_eq htree, hother.loadLayer_eq htree, hdir]
    have hrest : Loading.Alike (Store.load collect tree (store.loadLayer tree source).2 rest)
        (Store.load collect tree (other.loadLayer tree source).2 rest) := by
      refine ih ?_ ?_ ?_ ?_
      · exact h.loadLayer hdated htree (hreads source List.mem_cons_self)
      · exact hother.loadLayer hdated htree (hdir ▸ hreads source List.mem_cons_self)
      · rw [dataDir_loadLayer, dataDir_loadLayer, hdir]
      · rw [dataDir_loadLayer]
        exact fun source' hsource' => hreads source' (List.mem_cons_of_mem _ hsource')
    rw [Store.load, Store.load]
    generalize store.loadLayer tree source = loaded at hresult hrest ⊢
    generalize other.loadLayer tree source = loaded' at hresult hrest ⊢
    obtain ⟨result, read⟩ := loaded
    obtain ⟨result', read'⟩ := loaded'
    simp only at hresult hrest
    subst hresult
    cases result with
    | ok layer? => exact ⟨by simp only [hrest.layers], hrest.errors, hrest.stopped⟩
    | error failure =>
      cases failure with
      | error e =>
        cases e with
        | document name fault place =>
          cases collect with
          | true => exact ⟨hrest.layers, by simp only [if_true, hrest.errors], hrest.stopped⟩
          | false => exact ⟨rfl, rfl, rfl⟩
        | _ => exact ⟨rfl, rfl, rfl⟩
      | _ => exact ⟨rfl, rfl, rfl⟩

/-- The layer of a source, read without anything kept; nothing if it is skipped or cannot be
loaded. -/
def freshLayer? (dataDir : Path) (tree : FileTree) (source : LayerSource) : Option Layer :=
  match ((Store.new dataDir).loadLayer tree source).1 with
  | .ok layer? => layer?
  | .error _ => none

theorem freshLayer?_of_loadLayer {dataDir : Path} {layer? : Option Layer}
    (h : ((Store.new dataDir).loadLayer tree source).1 = .ok layer?) :
    freshLayer? dataDir tree source = layer? := by
  unfold freshLayer?
  rw [h]

/-- Two trees that hold the same at the path of a source's document hold the same layer. -/
theorem freshLayer?_congr {dataDir : Path} {tree' : FileTree}
    (h : ∀ path ∈ source.documentPath? dataDir, FileTree.SameAt path tree tree') :
    freshLayer? dataDir tree source = freshLayer? dataDir tree' source := by
  have hnew (tree : FileTree) : (Store.new dataDir).Faithful [tree] :=
    faithful_of_documents_eq_nil rfl
  have hread {path : Path} (hsame : FileTree.SameAt path tree tree') (identifier : String) :
      ((Store.new dataDir).readDocument tree path identifier).1 =
        ((Store.new dataDir).readDocument tree' path identifier).1 := by
    rw [(hnew tree).readDocument_eq List.mem_cons_self,
      (hnew tree').readDocument_eq List.mem_cons_self, freshDocument_congr hsame]
  have hdocument : ((Store.new dataDir).sourceDocument tree source).1 =
      ((Store.new dataDir).sourceDocument tree' source).1 := by
    unfold sourceDocument
    split
    · rfl
    · rename_i relative hdata hrelative
      have hsame := h (dataDir.join (Path.ofString relative)) (by
        unfold LayerSource.documentPath?
        rw [hdata, hrelative]
        rfl)
      simp only [Store.new, hsame.findEntry_eq]
      split
      · rfl
      · exact congrArg (Except.map fun json => some (Datum.ofJson json))
          (hread hsame source.identifier)
      · split <;> rfl
    · rfl
  unfold freshLayer?
  rw [loadLayer_congr hdocument]

/-- A gathering load that nothing stops yields the layer of every source that has one. -/
theorem Faithful.layers_load (h : Faithful trees store) (hdated : FileTree.Dated paths trees)
    (htree : tree ∈ trees) (hreads : ReadsWithin paths store.dataDir sources)
    (hstopped : (Store.load true tree store sources).stopped = none) :
    (Store.load true tree store sources).layers =
      sources.filterMap (freshLayer? store.dataDir tree) := by
  induction sources generalizing store with
  | nil => rfl
  | cons source rest ih =>
    have hfresh : freshLayer? store.dataDir tree source =
        match (store.loadLayer tree source).1 with
        | .ok layer? => layer?
        | .error _ => none := by
      rw [h.loadLayer_eq htree]
      rfl
    have hrest (hgoes : (Store.load true tree (store.loadLayer tree source).2 rest).stopped =
        none) : (Store.load true tree (store.loadLayer tree source).2 rest).layers =
          rest.filterMap (freshLayer? store.dataDir tree) := by
      have hlayers := ih (h.loadLayer hdated htree (hreads source List.mem_cons_self))
        (fun source' hsource' => by
          rw [dataDir_loadLayer]
          exact hreads source' (List.mem_cons_of_mem _ hsource')) hgoes
      rwa [dataDir_loadLayer] at hlayers
    rw [List.filterMap_cons, hfresh]
    rw [Store.load] at hstopped ⊢
    generalize store.loadLayer tree source = loaded at hrest hstopped ⊢
    obtain ⟨result, read⟩ := loaded
    simp only at hrest hstopped ⊢
    cases result with
    | ok layer? =>
      simp only at hstopped ⊢
      rw [hrest hstopped]
      cases layer? <;> rfl
    | error failure =>
      cases failure with
      | error e =>
        cases e with
        | document name fault place => exact hrest hstopped
        | _ => cases hstopped
      | _ => cases hstopped

/-- If every source loads without anything kept, all of them load. -/
theorem Faithful.load_of_each (h : Faithful trees store) (hdated : FileTree.Dated paths trees)
    (htree : tree ∈ trees) (hreads : ReadsWithin paths store.dataDir sources)
    (heach : ∀ source ∈ sources, ∃ layer?,
      ((Store.new store.dataDir).loadLayer tree source).1 = .ok layer?) :
    (Store.load true tree store sources).stopped = none ∧
      (Store.load true tree store sources).errors = [] := by
  induction sources generalizing store with
  | nil => exact ⟨rfl, rfl⟩
  | cons source rest ih =>
    obtain ⟨layer?, hlayer⟩ := heach source List.mem_cons_self
    rw [← h.loadLayer_eq htree] at hlayer
    obtain ⟨_, herrors, hstopped⟩ := load_cons_of_ok hlayer
    rw [hstopped, herrors]
    refine ih (h.loadLayer hdated htree (hreads source List.mem_cons_self)) ?_ ?_
    · intro source' hsource'
      rw [dataDir_loadLayer]
      exact hreads source' (List.mem_cons_of_mem _ hsource')
    · intro source' hsource'
      rw [dataDir_loadLayer]
      exact heach source' (List.mem_cons_of_mem _ hsource')

end Store

end DesignTokens
