import DesignTokens.Proofs.Resolution.Cache
import DesignTokens.Proofs.Resolution.Yields
/-!
# Looking up a single path

A look-up walks the chain of one path and knows of no failure, while resolving a whole tree enters
every chain wherever it comes to it and skips what it knows to fail.  Both still say the same of the
path, as long as what is remembered is true and the tree has a fingerprint.
-/

set_option autoImplicit false

namespace DesignTokens

open Resolution

/-- What a look-up of a path says agrees with a resolved tree: it finds a value exactly if the tree
has the path with that value, and else it says how the chain of the path ends. -/
structure Resolution.Agrees (tree : TokenTree) (resolved : ResolvedTree) (path : TokenPath)
    (found : Except Failure Scalar) : Prop where
  ok_iff : ∀ value, found = .ok value ↔ ∃ token, (path, token) ∈ resolved ∧ token.value = value
  error : (∀ token, (path, token) ∉ resolved) →
    (Loops tree path ∧ ∃ cycle, found = .error (.error (.cyclic cycle))) ∨
      (BreaksOff tree path ∧ ∃ chain, found = .error (.error (.unresolved chain)))

namespace ResolutionCache

variable {cache : ResolutionCache} {tree : TokenTree} {mode : String} {path : TokenPath}

/-- The outcome of a look-up of a path that the tree has, in terms of the pass over its chain. -/
theorem lookUp_of_mem (hpath : path ∈ OrderedMap.keys tree) :
    (cache.lookUp tree mode path).1 =
      match ((cache.startPass mode tree).resolvePath tree mode path).1 with
      | .ok terminal => .ok terminal.1
      | .error (.error e) => .error e
      | .error .reported => .error (.unresolved ⟨mode, path, path, [path]⟩) := by
  unfold lookUp
  simp only [(OrderedMap.has_iff_mem_keys tree path).mpr hpath, if_true]
  generalize (cache.startPass mode tree).resolvePath tree mode path = result
  obtain ⟨outcome, after⟩ := result
  cases outcome with
  | ok terminal => rfl
  | error why => cases why <;> rfl

/-- A look-up agrees with resolving the whole tree. -/
theorem agrees_resolvePath (hrenderable : tree.isRenderable = true)
    (hmemo : Memo.Sound tree (cache.memoFor mode tree)) (hpath : path ∈ OrderedMap.keys tree) :
    Agrees tree (cache.resolve true tree mode).1.resolved path
      (cache.resolvePath tree mode path).1 := by
  have hsound : (cache.startPass mode tree).Sound tree := Pass.sound_of_memo hmemo 0 0
  have hyields := yields_resolve_true hrenderable hmemo
  have hsays := hsound.says_how_it_ends rfl mode path
  rw [resolvePath_of_isRenderable hrenderable]
  simp only
  rw [lookUp_of_mem hpath]
  cases hfound : ((cache.startPass mode tree).resolvePath tree mode path).1 with
  | ok terminal =>
    rw [hfound] at hsays
    have hleads : Leads tree path terminal := hsays
    obtain ⟨entry, hentry, rfl⟩ := List.mem_map.mp hpath
    have hmem : (entry.1, resolvedToken entry.1 entry.2 terminal) ∈
        (cache.resolve true tree mode).1.resolved :=
      hyields.mem_iff.mpr ⟨entry.2, terminal, hentry, hleads, rfl⟩
    refine ⟨fun value => ⟨fun hvalue => ?_, ?_⟩, fun hnone => absurd hmem (hnone _)⟩
    · exact ⟨_, hmem, Except.ok.inj hvalue⟩
    · rintro ⟨token, htoken, rfl⟩
      obtain ⟨raw, other, _, hother, rfl⟩ := hyields.mem_iff.mp htoken
      rw [hother.unique hleads]
      rfl
  | error why =>
    rw [hfound] at hsays
    have habsent : (∀ terminal, ¬ Leads tree path terminal) →
        ∀ token, (path, token) ∉ (cache.resolve true tree mode).1.resolved := by
      intro hnot token htoken
      obtain ⟨_, terminal, _, hleads, _⟩ := hyields.mem_iff.mp htoken
      exact hnot terminal hleads
    cases why with
    | reported => exact hsays.elim
    | error e =>
      cases e with
      | unresolved chain =>
        have hbreaks : BreaksOff tree path := hsays
        refine ⟨fun value => ⟨fun hvalue => (by cases hvalue), ?_⟩, fun _ => .inr ⟨hbreaks, _, rfl⟩⟩
        rintro ⟨token, htoken, _⟩
        exact absurd htoken (habsent (fun _ hleads => hleads.not_breaksOff hbreaks) token)
      | cyclic cycle =>
        have hloops : Loops tree path := hsays
        refine ⟨fun value => ⟨fun hvalue => (by cases hvalue), ?_⟩, fun _ => .inl ⟨hloops, _, rfl⟩⟩
        rintro ⟨token, htoken, _⟩
        exact absurd htoken (habsent (fun _ hleads => hleads.not_loops hloops) token)
      | _ => exact hsays.elim

end ResolutionCache

end DesignTokens
