import DesignTokens.Cascade
import DesignTokens.Log
/-!
# Resolution of references

Every token has at most one reference, so resolving a path means walking one chain until it comes
to a literal, to a path without a token, or back to a path it has passed.  Values that were found
are remembered per mode; what is remembered holds only for the tree it was found in, which the
fingerprint of the tree identifies.  A tree without a fingerprint is not resolved at all.
-/

set_option autoImplicit false

namespace DesignTokens

/-- What a chain ends on: a literal, and the type of the token that has it. -/
abbrev Terminal := Scalar × TokenType

/-- The terminals found so far, by path. -/
abbrev Memo := OrderedMap TokenPath Terminal

/-- The resolved tokens of a mode, in tree order. -/
abbrev ResolvedTree := OrderedMap TokenPath ResolvedToken

namespace Resolution

/-! ## Walking a chain -/

/-- How many entries of a tree have a path outside a list. -/
def unvisited (tree : TokenTree) (visited : List TokenPath) : Nat :=
  tree.countP fun entry => entry.1 ∉ visited

theorem mem_keys_of_get? {tree : TokenTree} {path : TokenPath} {token : Token}
    (h : OrderedMap.get? tree path = some token) : ∃ entry ∈ tree, entry.1 = path := by
  have hmem := (OrderedMap.get?_isSome_iff tree path).mp (by simp [h])
  simpa [OrderedMap.keys] using hmem

/-- Passing a path of the tree leaves fewer paths to pass. -/
theorem unvisited_lt {tree : TokenTree} {visited : List TokenPath} {path : TokenPath}
    {token : Token} (hget : OrderedMap.get? tree path = some token) (hnew : path ∉ visited) :
    unvisited tree (visited ++ [path]) < unvisited tree visited := by
  obtain ⟨entry, hmem, hpath⟩ := mem_keys_of_get? hget
  unfold unvisited
  rw [List.countP_eq_length_filter, List.countP_eq_length_filter]
  have hsub : (tree.filter fun e => decide (e.1 ∉ visited ++ [path])) =
      (tree.filter fun e => decide (e.1 ∉ visited)).filter fun e => decide (e.1 ≠ path) := by
    rw [List.filter_filter]
    apply List.filter_congr
    intro e _
    by_cases h₁ : e.1 = path <;> by_cases h₂ : e.1 ∈ visited <;> simp [h₁, h₂]
  rw [hsub]
  apply List.length_filter_lt_length_iff_exists.mpr
  exact ⟨entry, by simp [List.mem_filter, hmem, hpath, hnew], by simp [hpath]⟩

/-- Where the references from a path lead: it ends at a literal, at a missing path, or at the first
path that it passes twice. -/
def chainFrom (tree : TokenTree) (visited : List TokenPath) (current : TokenPath) :
    List TokenPath :=
  if hnew : current ∈ visited then visited ++ [current]
  else
    match hget : OrderedMap.get? tree current with
    | none => visited ++ [current]
    | some token =>
      match token.value with
      | .literal _ => visited ++ [current]
      | .reference target =>
        have := unvisited_lt hget hnew
        chainFrom tree (visited ++ [current]) target
termination_by unvisited tree visited

/-- The chain of references from a path. -/
def referenceChain (tree : TokenTree) (path : TokenPath) : List TokenPath :=
  chainFrom tree [] path

/-- How a walk ends, with the paths it passed. -/
inductive WalkEnd where
  /-- At a terminal; the passed paths all have it. -/
  | terminal (found : Terminal) (passed : List TokenPath)
  /-- At a path without a token. -/
  | missing (passed : List TokenPath) (path : TokenPath)
  /-- At a path that was passed before. -/
  | cycle (passed : List TokenPath) (path : TokenPath)
  /-- At a path that is known to fail. -/
  | failed (passed : List TokenPath)
  deriving DecidableEq, Repr, Inhabited

/-- Walks the chain from a path.  A path known to fail ends the walk, and so does one whose terminal
is remembered. -/
def walk (tree : TokenTree) (memo : Memo) (failed : List TokenPath) (visited : List TokenPath)
    (current : TokenPath) : WalkEnd :=
  if hnew : current ∈ visited then .cycle visited current
  else if current ∈ failed then .failed (visited ++ [current])
  else
    match OrderedMap.get? memo current with
    | some found => .terminal found (visited ++ [current])
    | none =>
      match hget : OrderedMap.get? tree current with
      | none => .missing visited current
      | some token =>
        match token.value with
        | .literal value => .terminal (value, token.type.getD .string) (visited ++ [current])
        | .reference target =>
          have := unvisited_lt hget hnew
          walk tree memo failed (visited ++ [current]) target
termination_by unvisited tree visited

/-! ## One pass over a tree -/

/-- What a pass knows: terminals, paths that fail, and how often a terminal was known beforehand. -/
structure Pass where
  memo : Memo
  failed : List TokenPath
  hits : Nat
  misses : Nat
  deriving DecidableEq, Repr, Inhabited

/-- Why a path has no terminal: an error, or one that has been reported for a path before. -/
inductive Unresolvable where
  | error (error : BuildError)
  | reported
  deriving Repr, Inhabited

/-- Remembers a terminal for all paths of a chain. -/
def Pass.remember (pass : Pass) (found : Terminal) (passed : List TokenPath) : Pass :=
  { pass with memo := passed.foldl (fun memo path => OrderedMap.set memo path found) pass.memo }

/-- Marks all paths of a chain as failing. -/
def Pass.fail (pass : Pass) (passed : List TokenPath) : Pass :=
  { pass with failed := pass.failed ++ passed.filter fun path => path ∉ pass.failed }

/-- The terminal of a path. -/
def Pass.resolvePath (pass : Pass) (tree : TokenTree) (mode : String) (start : TokenPath) :
    Except Unresolvable Terminal × Pass :=
  match OrderedMap.get? pass.memo start with
  | some found => (.ok found, { pass with hits := pass.hits + 1 })
  | none =>
    let counted := { pass with misses := pass.misses + 1 }
    match walk tree pass.memo pass.failed [] start with
    | .terminal found passed => (.ok found, counted.remember found passed)
    | .missing passed path =>
      let broken : BrokenChain := ⟨mode, passed.getLastD path, path, passed ++ [path]⟩
      (.error (.error (.unresolved broken)), counted.fail passed)
    | .cycle passed path =>
      let loop : ReferenceCycle := ⟨mode, passed.dropWhile (· ≠ path) ++ [path]⟩
      (.error (.error (.cyclic loop)), counted.fail passed)
    | .failed passed => (.error .reported, counted.fail passed)

/-- The outcome of a pass: the resolved tokens, the errors it gathered, and the failure it stopped
at. -/
structure Outcome where
  resolved : ResolvedTree
  errors : List BuildError
  stopped : Option Failure
  pass : Pass
  deriving Inhabited

/-- The outcome of a call that breaks down before it has passed over its tree. -/
def Outcome.brokenDown (cause : Breakdown) : Outcome :=
  ⟨[], [], some (.breakdown cause), ⟨[], [], 0, 0⟩⟩

/-- The resolved form of a token, which has its own type if it declares one. -/
def resolvedToken (path : TokenPath) (token : Token) (found : Terminal) : ResolvedToken :=
  ⟨path, token.type.getD found.2, found.1, token.layer⟩

/-- Resolves the entries of a tree one after the other.  With `collect`, errors are gathered, the
failing paths are left out, and the pass goes on; otherwise the first error stops it. -/
def resolveEntries (collect : Bool) (tree : TokenTree) (mode : String) :
    Pass → List (TokenPath × Token) → Outcome
  | pass, [] => ⟨[], [], none, pass⟩
  | pass, (path, token) :: rest =>
    match pass.resolvePath tree mode path with
    | (.ok found, after) =>
      let more := resolveEntries collect tree mode after rest
      { more with resolved := (path, resolvedToken path token found) :: more.resolved }
    | (.error .reported, after) => resolveEntries collect tree mode after rest
    | (.error (.error e), after) =>
      if collect then
        let more := resolveEntries collect tree mode after rest
        { more with errors := e :: more.errors }
      else
        ⟨[], [], some (.error e), after⟩

/-- What the log tells a verbose run of a resolved token. -/
def resolvedLine (tree : TokenTree) (mode : String) (token : ResolvedToken) : LogLine :=
  let isReference := match OrderedMap.get? tree token.path with
    | some raw => raw.value.isReference
    | none => false
  let via := if isReference then
    s!" (via {TokenPath.dottedChain ((referenceChain tree token.path).drop 1)})" else ""
  .detail s!"[{mode}] {token.path.dotted} = {token.value.shown}{via}"

end Resolution

/-- The terminals of a mode, and the fingerprint of the tree they hold for. -/
structure ModeMemo where
  fingerprint : String
  memo : Memo
  deriving DecidableEq, Repr, Inhabited

/-- What is remembered of all modes, and how it was used. -/
structure ResolutionCache where
  modes : OrderedMap String ModeMemo
  hits : Nat
  misses : Nat
  invalidations : Nat
  deriving DecidableEq, Repr, Inhabited

namespace ResolutionCache

/-- Nothing remembered yet. -/
def empty : ResolutionCache :=
  ⟨[], 0, 0, 0⟩

/-- Whether a mode is remembered for another tree. -/
def isStale (cache : ResolutionCache) (mode : String) (tree : TokenTree) : Bool :=
  match OrderedMap.get? cache.modes mode, tree.fingerprint with
  | some held, .ok fingerprint => held.fingerprint != fingerprint
  | _, _ => false

/-- What is remembered of a mode for a tree; nothing if it was found in another tree. -/
def memoFor (cache : ResolutionCache) (mode : String) (tree : TokenTree) : Memo :=
  match OrderedMap.get? cache.modes mode, tree.fingerprint with
  | some held, .ok fingerprint => if held.fingerprint = fingerprint then held.memo else []
  | _, _ => []

/-- What is remembered of all modes, with a memo for one of them under the fingerprint of a tree. -/
def hold (cache : ResolutionCache) (mode : String) (tree : TokenTree) (memo : Memo) :
    OrderedMap String ModeMemo :=
  match tree.fingerprint with
  | .ok fingerprint => OrderedMap.set cache.modes mode ⟨fingerprint, memo⟩
  | .error _ => cache.modes

/-- Binds a mode to a tree: what was remembered of another tree is dropped. -/
def bind (cache : ResolutionCache) (mode : String) (tree : TokenTree) : ResolutionCache :=
  { cache with
    modes := cache.hold mode tree (cache.memoFor mode tree)
    invalidations := cache.invalidations + if cache.isStale mode tree then 1 else 0 }

/-- The pass that starts from what is remembered of a mode. -/
def startPass (cache : ResolutionCache) (mode : String) (tree : TokenTree) : Resolution.Pass :=
  ⟨cache.memoFor mode tree, [], 0, 0⟩

/-- The cache after a pass over the tree that a mode is bound to. -/
def absorb (cache : ResolutionCache) (mode : String) (tree : TokenTree) (pass : Resolution.Pass) :
    ResolutionCache :=
  { cache with
    modes := cache.hold mode tree pass.memo
    hits := cache.hits + pass.hits
    misses := cache.misses + pass.misses }

/-- The remembered terminal of a path. -/
def get? (cache : ResolutionCache) (mode : String) (path : TokenPath) : Option Terminal :=
  (OrderedMap.get? cache.modes mode).bind fun held => OrderedMap.get? held.memo path

/-- How many terminals are remembered. -/
def size (cache : ResolutionCache) : Nat :=
  (cache.modes.map fun held => held.2.memo.length).foldr (· + ·) 0

/-- Forgets all terminals; the counts of use go on. -/
def clear (cache : ResolutionCache) : ResolutionCache :=
  { cache with modes := [] }

/-- Passes over all paths of a tree to which the mode can be bound. -/
def passOver (cache : ResolutionCache) (collect : Bool) (tree : TokenTree) (mode : String) :
    Resolution.Outcome × ResolutionCache :=
  let outcome := Resolution.resolveEntries collect tree mode (cache.startPass mode tree) tree
  (outcome, (cache.bind mode tree).absorb mode tree outcome.pass)

/-- Resolves all paths of a tree.  Nothing is bound to a tree that has no fingerprint. -/
def resolve (cache : ResolutionCache) (collect : Bool) (tree : TokenTree) (mode : String) :
    Resolution.Outcome × ResolutionCache :=
  match tree.fingerprint with
  | .error cause => (.brokenDown cause, cache)
  | .ok _ => cache.passOver collect tree mode

/-- Looks up one path of a tree to which the mode can be bound. -/
def lookUp (cache : ResolutionCache) (tree : TokenTree) (mode : String) (path : TokenPath) :
    Except BuildError Scalar × ResolutionCache :=
  let bound := cache.bind mode tree
  if OrderedMap.has tree path then
    let (found, pass) := (cache.startPass mode tree).resolvePath tree mode path
    let after := bound.absorb mode tree pass
    match found with
    | .ok terminal => (.ok terminal.1, after)
    | .error (.error e) => (.error e, after)
    | .error .reported => (.error (.unresolved ⟨mode, path, path, [path]⟩), after)
  else
    (.error (.unresolved ⟨mode, path, path, [path]⟩), bound)

/-- Resolves one path of a tree. -/
def resolvePath (cache : ResolutionCache) (tree : TokenTree) (mode : String) (path : TokenPath) :
    Except Failure Scalar × ResolutionCache :=
  match tree.fingerprint with
  | .error cause => (.error (.breakdown cause), cache)
  | .ok _ =>
    let (found, after) := cache.lookUp tree mode path
    (found.mapError Failure.error, after)

/-- What the log tells a verbose run when a mode is bound to a tree. -/
def bindLines (cache : ResolutionCache) (mode : String) (tree : TokenTree) : List LogLine :=
  if cache.isStale mode tree then [.detail s!"Resolution cache invalidated for mode {mode}"] else []

end ResolutionCache

end DesignTokens
