import DesignTokens.Config.Basic
import DesignTokens.Document
import DesignTokens.Log
/-!
# The token store

The store turns layer sources into layers.  Documents are read below a data directory; a document
that has been read is kept with the time of its file's last change and not read again while that
time stays the same.  A document that cannot be read leaves nothing behind.
-/

set_option autoImplicit false

namespace DesignTokens

/-- A data directory and the documents read so far. -/
structure Store where
  dataDir : Path
  documents : OrderedMap Path (Int × Json)
  deriving Repr, Inhabited

/-- What loading a sequence of sources yields.  Loading stops at the first failure; faults of
documents may be gathered instead. -/
structure Loading where
  layers : List Layer
  errors : List BuildError
  stopped : Option Failure
  log : List LogLine
  store : Store
  deriving Inhabited

namespace Store

/-- A store that has read nothing yet. -/
def new (dataDir : Path) : Store :=
  ⟨dataDir, []⟩

/-- Forgets all documents. -/
def clear (store : Store) : Store :=
  { store with documents := [] }

/-- The failure of a document that cannot be read. -/
def documentFailure (identifier : String) (fault : DocumentFault) : Failure :=
  .error (.document identifier fault .unknown)

/-- The document in a text. -/
def parseText (identifier : String) (text : String) : Except Failure Json :=
  match Json.read .refuse text with
  | .ok document => .ok document
  | .error (.malformed complaint place) =>
    .error (.error (.document identifier (.malformedText complaint) (.inText place)))
  | .error (.repeatedKey key) => .error (documentFailure identifier (.repeatedKey key))
  | .error .integerTooLong => .error (.breakdown .integerTooLong)

/-- The document in a file, read anew. -/
def parseFile (tree : FileTree) (path : Path) (identifier : String) : Except Failure Json :=
  match tree.readText path with
  | .error (.file fault) => .error (documentFailure identifier (.unreadable fault))
  | .error .undecodable => .error (documentFailure identifier .undecodable)
  | .ok text => parseText identifier text

/-- The document in a file, from the store if the file has not changed. -/
def readDocument (store : Store) (tree : FileTree) (path : Path) (identifier : String) :
    Except Failure Json × Store :=
  match tree.stat path with
  | .error fault => (.error (documentFailure identifier (.unreadable fault)), store)
  | .ok entry =>
    let fresh : Except Failure Json × Store :=
      match parseFile tree path identifier with
      | .error failure => (.error failure, store)
      | .ok document =>
        (.ok document,
          { store with documents := OrderedMap.set store.documents path (entry.changed, document) })
    match OrderedMap.get? store.documents path with
    | some (changed, document) => if changed = entry.changed then (.ok document, store) else fresh
    | none => fresh

/-- The document of a layer source, or nothing for an optional one whose file is absent. -/
def sourceDocument (store : Store) (tree : FileTree) (source : LayerSource) :
    Except Failure (Option Datum) × Store :=
  match source.data, source.source with
  | some fields, _ => (.ok (some (.map fields)), store)
  | none, some relative =>
    let path := store.dataDir.join (Path.ofString relative)
    match tree.findEntry path with
    | .error fault => (.error (.breakdown (.file fault)), store)
    | .ok true =>
      let (document, read) := store.readDocument tree path source.identifier
      (document.map fun json => some (.ofJson json), read)
    | .ok false =>
      if source.skippable then (.ok none, store)
      else (.error (documentFailure source.identifier .notFound), store)
  | none, none => (.error (.error (.config (.layerWithoutOrigin source.name))), store)

/-- The layer of a source with its document. -/
def layerOf (source : LayerSource) (document : Datum) : Except Failure Layer :=
  match Document.flatten ⟨source.name, source.identifier⟩ document with
  | .error failure => .error failure
  | .ok tokens =>
    .ok ⟨source.name, source.mode, source.group, source.emit, source.identifier, tokens⟩

/-- The layer of a source, or nothing for an optional one whose file is absent. -/
def loadLayer (store : Store) (tree : FileTree) (source : LayerSource) :
    Except Failure (Option Layer) × Store :=
  match store.sourceDocument tree source with
  | (.error failure, read) => (.error failure, read)
  | (.ok none, read) => (.ok none, read)
  | (.ok (some document), read) => ((layerOf source document).map some, read)

/-- What the log says of a source that was loaded or skipped. -/
def loadLines (store : Store) (source : LayerSource) : Except Failure (Option Layer) → List LogLine
  | .ok (some layer) => [.info s!"Loaded layer {source.name}: {layer.tokens.length} tokens"]
  | .ok none =>
    let path := store.dataDir.join (Path.ofString (source.source.getD ""))
    [.info s!"Skipping optional layer {source.name}: {path} not found"]
  | .error _ => []

/-- The layers of a sequence of sources, in order.  With `collect`, faults of documents are gathered
and loading goes on. -/
def load (collect : Bool) (tree : FileTree) (store : Store) : List LayerSource → Loading
  | [] => ⟨[], [], none, [], store⟩
  | source :: rest =>
    let (result, read) := store.loadLayer tree source
    let lines := store.loadLines source result
    match result with
    | .ok layer? =>
      let more := load collect tree read rest
      { more with layers := layer?.toList ++ more.layers, log := lines ++ more.log }
    | .error (.error (.document identifier fault place)) =>
      if collect then
        let more := load collect tree read rest
        { more with errors := .document identifier fault place :: more.errors }
      else
        ⟨[], [], some (.error (.document identifier fault place)), [], read⟩
    | .error failure => ⟨[], [], some failure, [], read⟩

/-- The number of tokens per layer name; of two layers with one name the last counts. -/
def countTokens (layers : List Layer) : OrderedMap String Nat :=
  OrderedMap.ofPairs (layers.map fun layer => (layer.name, layer.tokens.length))

end Store

end DesignTokens
