import DesignTokens.BuildError
import DesignTokens.Digest.Sha256
/-!
# The cascade

One tree of tokens per mode, folded from the layers that apply to it: a later layer replaces a
token as a whole, and a path keeps the position at which it was first defined.  All modes must have
the same paths.  The canonical text of a tree holds all that its resolution depends on.
-/

set_option autoImplicit false

namespace DesignTokens

/-- The winning tokens of a mode, one per path, in order of first definition. -/
abbrev TokenTree := OrderedMap TokenPath Token

/-- The trees of several modes, in mode order. -/
abbrev ByMode (α : Type) := OrderedMap String α

namespace Cascade

/-- The layers that apply to a mode, lowest priority first. -/
def layersFor (layers : List Layer) (mode : String) : List Layer :=
  layers.filter fun layer => layer.appliesTo mode

/-- Adds a token, over the one that has its path. -/
def addToken (tree : TokenTree) (token : Token) : TokenTree :=
  OrderedMap.set tree token.path token

/-- The tree of a sequence of tokens. -/
def ofTokens (tokens : List Token) : TokenTree :=
  tokens.foldl addToken []

/-- The tokens that take part in the cascade of a mode. -/
def tokensFor (layers : List Layer) (mode : String) : List Token :=
  (layersFor layers mode).flatMap (·.tokens)

/-- The tree of a mode. -/
def compose (layers : List Layer) (mode : String) : TokenTree :=
  ofTokens (tokensFor layers mode)

/-- How many tokens were replaced by later ones in the cascade of a mode. -/
def overrides (layers : List Layer) (mode : String) : Nat :=
  (tokensFor layers mode).length - (compose layers mode).length

/-- The trees of several modes. -/
def composeAll (layers : List Layer) (modes : List String) : ByMode TokenTree :=
  OrderedMap.ofPairs (modes.map fun mode => (mode, compose layers mode))

/-! ## Coverage -/

/-- The paths of all trees, in the order in which they are first met. -/
def allPaths {α : Type} (trees : ByMode (OrderedMap TokenPath α)) : List TokenPath :=
  (trees.flatMap fun tree => OrderedMap.keys tree.2).eraseDups

/-- The modes whose tree has a path. -/
def modesWith {α : Type} (trees : ByMode (OrderedMap TokenPath α)) (path : TokenPath) :
    List String :=
  (trees.filter fun tree => OrderedMap.has tree.2 path).map (·.1)

/-- The modes whose tree lacks a path. -/
def modesWithout {α : Type} (trees : ByMode (OrderedMap TokenPath α)) (path : TokenPath) :
    List String :=
  (trees.filter fun tree => !OrderedMap.has tree.2 path).map (·.1)

/-- The gap at a path, if some mode lacks it. -/
def gapAt? {α : Type} (trees : ByMode (OrderedMap TokenPath α)) (path : TokenPath) :
    Option CoverageGap :=
  let missing := modesWithout trees path
  if missing.isEmpty then none else some ⟨path, modesWith trees path, missing⟩

/-- The paths that some modes have and others lack. -/
def coverageGaps {α : Type} (trees : ByMode (OrderedMap TokenPath α)) : List CoverageGap :=
  (allPaths trees).filterMap (gapAt? trees)

end Cascade

namespace TokenTree

/-- The JSON form of a tree. -/
def canonicalJson (tree : TokenTree) : Json :=
  .arr (tree.map fun entry => entry.2.canonicalJson)

/-- The characters of the canonical text, whatever the length of the integers among them. -/
def text (tree : TokenTree) : String :=
  tree.canonicalJson.render

/-- Whether a tree has a canonical text: an integer with too many digits is not written. -/
def isRenderable (tree : TokenTree) : Bool :=
  tree.canonicalJson.isRenderable

/-- The canonical text of a tree. -/
def canonical (tree : TokenTree) : Except Breakdown String :=
  if tree.isRenderable then .ok tree.text else .error .integerTooLong

/-- The digest of a text, in UTF-8. -/
def digestOf (text : String) : String :=
  Sha256.hexDigest text.toUTF8.toList

/-- The digest of the canonical text. -/
def fingerprint (tree : TokenTree) : Except Breakdown String :=
  tree.canonical.map digestOf

end TokenTree

end DesignTokens
