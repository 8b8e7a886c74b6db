import DesignTokens.Yaml.Scalar
import DesignTokens.Yaml.Token
/-!
# Nodes of YAML

A YAML document as a tree of tagged scalars, lists and mappings, read from its tokens.

Mappings are read with their merges done: what a mapping merges comes before its own pairs, so that
its own pairs win.  An alias stands for the node of its anchor.  Inside that node itself it cannot,
and stands for an empty collection of the same kind.
-/

set_option autoImplicit false

namespace DesignTokens.Yaml

/-- A node of a document. -/
inductive Node where
  | scalar (tag : Tag) (text : String)
  | list (tag : Tag) (items : List Node)
  | map (tag : Tag) (pairs : List (Node × Node))
  /-- A mapping that merges what is no mapping. -/
  | broken
  /-- An alias of a collection that it stands in. -/
  | enclosing (isMap : Bool)
  deriving Repr, Inhabited

namespace Node

/-- The node that is not written. -/
def empty : Node := .scalar .null ""

/-- The pairs of a mapping; a mapping that is still open lends none. -/
def pairs? : Node → Option (List (Node × Node))
  | .map _ pairs => some pairs
  | .enclosing true => some []
  | _ => none

/-- The pairs that a node lends to a mapping that merges it.  A list lends those of its items, the
first item last, so that it wins. -/
def lentPairs? : Node → Option (List (Node × Node))
  | .list _ items => (items.mapM pairs?).map fun lent => lent.reverse.flatten
  | node => pairs? node

/-- What a key of a mapping does. -/
def isMergeKey : Node → Bool
  | .scalar .merge _ => true
  | _ => false

/-- A key of a mapping; the default mark is a text there. -/
def asKey : Node → Node
  | .scalar .default text => .scalar .text text
  | key => key

/-- A mapping with its merges done. -/
def merged (pairs : List (Node × Node)) : Node :=
  let own := (pairs.filter fun pair => !pair.1.isMergeKey).map fun pair => (pair.1.asKey, pair.2)
  match (pairs.filter fun pair => pair.1.isMergeKey).mapM fun pair => pair.2.lentPairs? with
  | some lent => .map .map (lent.flatten ++ own)
  | none => .broken

/-- The text of a node that is tagged as a scalar.  A mapping has that of its default. -/
def scalarText? : Node → Option String
  | .scalar _ text => some text
  | .map _ pairs => textOfDefault? pairs
  | _ => none
where
  /-- The text under the default mark. -/
  textOfDefault? : List (Node × Node) → Option String
    | [] => none
    | (.scalar .default _, value) :: _ => scalarText? value
    | _ :: rest => textOfDefault? rest

/-! ## Tags -/

/-- The tag of a scalar: the given one, or the one of the way it is written. -/
def scalarTag (given : Option String) (isPlain : Bool) (text : String) : Tag :=
  match given with
  | some "!" => .ofPlain text
  | some name => .ofName name
  | none => if isPlain then .ofPlain text else .text

/-- The tag of a collection: the given one, or the one of its kind. -/
def collectionTag (given : Option String) (kind : Tag) : Tag :=
  match given with
  | none | some "!" => kind
  | some name => .ofName name

/-- A mapping under a tag. -/
def ofPairs (tag : Tag) (pairs : List (Node × Node)) : Node :=
  if tag = .map then merged pairs else .map tag pairs

/-! ## Reading tokens -/

/-- The tokens still to be read, the fault at which they stop, what the handles of tags stand for,
and the nodes that have anchors. -/
structure Source where
  tokens : List Token
  stop : Fault
  handles : OrderedMap String String
  anchors : OrderedMap String Node
  deriving Repr, Inhabited

/-- A reader of tokens. -/
abbrev Read (α : Type) : Type := StateT Source (Except Fault) α

/-- The next token. -/
def peek : Read Token := do
  match (← get).tokens with
  | token :: _ => return token
  | [] => throw (← get).stop

/-- Past the next token. -/
def drop : Read Unit :=
  modify fun source => { source with tokens := source.tokens.drop 1 }

/-- What a node has before its content. -/
structure Properties where
  anchor : Option String
  tag : Option String
  deriving DecidableEq, Repr, Inhabited

/-- The anchor here, if there is one. -/
def readAnchor : Read (Option String) := do
  match ← peek with
  | .anchor name =>
    drop
    return some name
  | _ => return none

/-- The full name of the tag here, if there is one. -/
def readTagName : Read (Option String) := do
  match ← peek with
  | .tag none name =>
    drop
    return some name
  | .tag (some handle) name =>
    drop
    match OrderedMap.get? (← get).handles handle with
    | some meaning => return some (meaning ++ name)
    | none => throw .malformed
  | _ => return none

/-- The properties of a node, in either order. -/
def readProperties : Read Properties := do
  match ← readAnchor with
  | some anchor => return ⟨some anchor, ← readTagName⟩
  | none =>
    let tag ← readTagName
    return ⟨← readAnchor, tag⟩

/-- Whether a token opens a mapping. -/
def opensMap (token : Token) : Bool :=
  token = .mapStart || token = .flowMapStart

/-- Gives a node to its anchor; each anchor is given once. -/
def anchored (anchor : Option String) (content : Read Node) : Read Node :=
  match anchor with
  | none => content
  | some name => do
    if OrderedMap.has (← get).anchors name then throw .malformed
    let around := Node.enclosing (opensMap (← peek))
    modify fun source => { source with anchors := OrderedMap.set source.anchors name around }
    let node ← content
    modify fun source => { source with anchors := OrderedMap.set source.anchors name node }
    return node

/-- The node of an alias. -/
def readAlias (name : String) : Read Node := do
  match OrderedMap.get? (← get).anchors name with
  | some node => return node
  | none => throw .malformed

/-- Where a node stands. -/
inductive Place where
  /-- A document, or an item of a block list. -/
  | block
  /-- A key or a value of a block mapping; a list need not be indented there. -/
  | blockPart
  /-- Between brackets. -/
  | flow
  deriving DecidableEq, Repr, Inhabited

/-- Whether a token ends an item of a block list. -/
def endsItem : Token → Bool
  | .entry | .blockEnd => true
  | _ => false

/-- Whether a token ends a key or a value of a block mapping, or an item of a list inside it that
is not indented. -/
def endsPart (inList : Bool) : Token → Bool
  | .key | .value | .blockEnd => true
  | .entry => inList
  | _ => false

/-- Whether a token ends a value between brackets. -/
def endsFlowValue (closing : Token) (token : Token) : Bool :=
  token = .comma || token = closing

/-- Whether a token ends a key between brackets. -/
def endsFlowKey (closing : Token) (token : Token) : Bool :=
  token = .value || endsFlowValue closing token

/-- A node, or the empty node if none is written before a token that ends it. -/
def unless_ (ends : Token → Bool) (node : Read Node) : Read Node := do
  if ends (← peek) then return empty else node

/-- The value after a key, if there is one. -/
def valueAfter (value : Read Node) : Read Node := do
  match ← peek with
  | .value =>
    drop
    value
  | _ => return empty

/-- Past the comma between the parts of a flow collection; the first part has none before it. -/
def skipComma (first : Bool) : Read Unit := do
  if !first then
    match ← peek with
    | .comma => drop
    | _ => throw .malformed

mutual

/-- A node. -/
def read : Nat → Place → Read Node
  | 0, _ => throw .malformed
  | fuel + 1, place => do
    match ← peek with
    | .alias name =>
      drop
      readAlias name
    | _ =>
      let properties ← readProperties
      anchored properties.anchor (readContent fuel place properties)

/-- The content of a node with some properties. -/
def readContent : Nat → Place → Properties → Read Node
  | 0, _, _ => throw .malformed
  | fuel + 1, place, properties => do
    let listTag := collectionTag properties.tag .list
    let mapTag := collectionTag properties.tag .map
    let token ← peek
    match token, place with
    | .scalar text isPlain, _ =>
      drop
      return .scalar (scalarTag properties.tag isPlain text) text
    | .entry, .blockPart => return .list listTag (← readUnindented fuel)
    | .flowListStart, _ =>
      drop
      return .list listTag (← readFlowItems fuel true)
    | .flowMapStart, _ =>
      drop
      return ofPairs mapTag (← readFlowPairs fuel true)
    | .listStart, .block | .listStart, .blockPart =>
      drop
      return .list listTag (← readItems fuel)
    | .mapStart, .block | .mapStart, .blockPart =>
      drop
      return ofPairs mapTag (← readPairs fuel)
    | _, _ =>
      if properties.anchor.isSome || properties.tag.isSome then
        return .scalar (scalarTag properties.tag true "") ""
      else throw .malformed

/-- The items of a list that is not indented. -/
def readUnindented : Nat → Read (List Node)
  | 0 => throw .malformed
  | fuel + 1 => do
    match ← peek with
    | .entry =>
      drop
      let item ← unless_ (endsPart true) (read fuel .block)
      return item :: (← readUnindented fuel)
    | _ => return []

/-- The items of a block list. -/
def readItems : Nat → Read (List Node)
  | 0 => throw .malformed
  | fuel + 1 => do
    match ← peek with
    | .entry =>
      drop
      let item ← unless_ endsItem (read fuel .block)
      return item :: (← readItems fuel)
    | .blockEnd =>
      drop
      return []
    | _ => throw .malformed

/-- The pairs of a block mapping. -/
def readPairs : Nat → Read (List (Node × Node))
  | 0 => throw .malformed
  | fuel + 1 => do
    match ← peek with
    | .key =>
      drop
      let key ← unless_ (endsPart false) (read fuel .blockPart)
      let value ← valueAfter (unless_ (endsPart false) (read fuel .blockPart))
      return (key, value) :: (← readPairs fuel)
    | .blockEnd =>
      drop
      return []
    | _ => throw .malformed

/-- The items of a flow list.  An item may be a single pair. -/
def readFlowItems : Nat → Bool → Read (List Node)
  | 0, _ => throw .malformed
  | fuel + 1, first => do
    if (← peek) = .flowListEnd then
      drop
      return []
    skipComma first
    match ← peek with
    | .flowListEnd =>
      drop
      return []
    | .key =>
      drop
      let key ← unless_ (endsFlowKey .flowListEnd) (read fuel .flow)
      let value ← valueAfter (unless_ (endsFlowValue .flowListEnd) (read fuel .flow))
      return merged [(key, value)] :: (← readFlowItems fuel false)
    | _ =>
      let item ← read fuel .flow
      return item :: (← readFlowItems fuel false)

/-- The pairs of a flow mapping.  A node that is no key has no value. -/
def readFlowPairs : Nat → Bool → Read (List (Node × Node))
  | 0, _ => throw .malformed
  | fuel + 1, first => do
    if (← peek) = .flowMapEnd then
      drop
      return []
    skipComma first
    match ← peek with
    | .flowMapEnd =>
      drop
      return []
    | .key =>
      drop
      let key ← unless_ (endsFlowKey .flowMapEnd) (read fuel .flow)
      let value ← valueAfter (unless_ (endsFlowValue .flowMapEnd) (read fuel .flow))
      return (key, value) :: (← readFlowPairs fuel false)
    | _ =>
      let key ← read fuel .flow
      return (key, empty) :: (← readFlowPairs fuel false)

end

/-! ## Documents -/

/-- The handles that need no declaration, and what they stand for. -/
def defaultHandles : OrderedMap String String :=
  [("!", "!"), ("!!", tagNamespace)]

/-- What the directives of a document have declared so far. -/
structure Declared where
  hasVersion : Bool
  handles : OrderedMap String String
  deriving Repr, Inhabited

/-- The declarations after a further directive.  Texts of other major versions are not read. -/
def Declared.add (declared : Declared) : Directive → Except Fault Declared
  | .version major =>
    if declared.hasVersion || major != 1 then .error .malformed
    else .ok { declared with hasVersion := true }
  | .handle name meaning =>
    if OrderedMap.has declared.handles name then .error .malformed
    else .ok { declared with handles := OrderedMap.set declared.handles name meaning }
  | .other => .ok declared

/-- The directives of a document and the mark after them. -/
def readHead (stop : Fault) (declared : Declared) :
    List Token → Except Fault (Declared × List Token)
  | .directive given :: rest =>
    match declared.add given with
    | .ok more => readHead stop more rest
    | .error fault => .error fault
  | .documentStart :: rest => .ok (declared, rest)
  | _ :: _ => .error .malformed
  | [] => .error stop

/-- Whether a token shows that a document has no content. -/
def endsDocument : Token → Bool
  | .directive _ | .documentStart | .documentEnd | .textEnd => true
  | _ => false

/-- The handles of a document: the declared ones, else the default ones. -/
def Declared.allHandles (declared : Declared) : OrderedMap String String :=
  defaultHandles.foldl
    (fun all pair => if OrderedMap.has all pair.1 then all else OrderedMap.set all pair.1 pair.2)
    declared.handles

/-- What follows the only document of a text. -/
def readEnd (stop : Fault) : List Token → Except Fault Unit
  | .documentEnd :: rest => readEnd stop rest
  | .textEnd :: _ => .ok ()
  | _ :: _ => .error .malformed
  | [] => .error stop

/-- The document of some tokens, if there is one. -/
def ofTokens (tokens : List Token) (stop : Fault) : Except Fault (Option Node) := do
  let fuel := 4 * tokens.length + 8
  match tokens with
  | .textEnd :: _ => return none
  | .directive _ :: _ | .documentStart :: _ =>
    let (declared, rest) ← readHead stop ⟨false, []⟩ tokens
    let source : Source := ⟨rest, stop, declared.allHandles, []⟩
    let (node, after) ← (unless_ endsDocument (read fuel .block)).run source
    readEnd stop after.tokens
    return some node
  | _ =>
    let (node, after) ← (read fuel .block).run ⟨tokens, stop, defaultHandles, []⟩
    readEnd stop after.tokens
    return some node

/-- The document of a text, if there is one. -/
def ofText (text : List Char) : Except Fault (Option Node) :=
  let (tokens, stop) := Token.ofText text
  ofTokens tokens (stop.getD .malformed)

end Node

end DesignTokens.Yaml
