import DesignTokens.Proofs.Build.LookUps
import DesignTokens.Proofs.Document.Scope
import DesignTokens.Proofs.Reference
/-!
# Addresses of tokens

Messages name a token by the dotted form of its path, and callers and references name it in the same
way.  The form leads back to the path unless a key on the way has a dot or blanks around it, and its
expression unless a key has a brace besides; no other text leads to such a token then.  Dotted forms
are told apart by the pieces between their dots, so two paths share one only if a key has a dot.
-/

set_option autoImplicit false

namespace DesignTokens

namespace TokenPath

/-- Which texts lead to a path: its dotted form and its expression do, as far as its keys can be
written in them, and if they do not, no text does. -/
structure Addressed (path : TokenPath) : Prop where
  dotted : ofDotted path.dotted = path ↔
    ∀ key ∈ path, '.' ∉ key.toList ∧ Text.IsTrimmed key.toList
  expression : TokenValue.ofScalar (.str (TokenValue.expression path)) = .reference path ↔
    ∀ key ∈ path, ('.' ∉ key.toList ∧ Text.IsTrimmed key.toList) ∧
      '{' ∉ key.toList ∧ '}' ∉ key.toList
  dotted_of_text : ∀ s, ofDotted s = path → ofDotted path.dotted = path
  expression_of_text : ∀ s, TokenValue.ofScalar (.str s) = .reference path →
    TokenValue.ofScalar (.str (TokenValue.expression path)) = .reference path

variable {path other : TokenPath}

/-- Keys that are not blank are plain if they have no dot and no blanks around them. -/
theorem isPlain_iff (hnamed : ∀ key ∈ path, Text.allBlank key = false) :
    path.IsPlain ↔ ∀ key ∈ path, '.' ∉ key.toList ∧ Text.IsTrimmed key.toList := by
  refine forall₂_congr fun key hkey => ?_
  have hne : key ≠ "" := by
    rintro rfl
    exact absurd (hnamed "" hkey) (by decide)
  rw [Text.trim_eq_self_iff]
  exact and_iff_right hne

theorem isReferable_iff (hne : path ≠ []) (hnamed : ∀ key ∈ path, Text.allBlank key = false) :
    path.IsReferable ↔ ∀ key ∈ path, ('.' ∉ key.toList ∧ Text.IsTrimmed key.toList) ∧
      '{' ∉ key.toList ∧ '}' ∉ key.toList := by
  constructor
  · intro h key hkey
    exact ⟨(isPlain_iff hnamed).mp h.plain key hkey, h.unbraced key hkey⟩
  · intro h
    exact ⟨hne, (isPlain_iff hnamed).mpr fun key hkey => (h key hkey).1,
      fun key hkey => (h key hkey).2⟩

/-- What is read from a dotted form is plain, if no piece is blank. -/
theorem isPlain_of_ofDotted {s : String} (h : ofDotted s = path)
    (hnamed : ∀ key ∈ path, Text.allBlank key = false) : path.IsPlain := by
  obtain ⟨pieces, _, hdots, _, rfl⟩ := ofDotted_eq_iff.mp h
  rw [isPlain_iff hnamed]
  intro key hkey
  obtain ⟨piece, hpiece, rfl⟩ := List.mem_map.mp hkey
  exact ⟨fun hdot => hdots piece hpiece (Text.mem_of_mem_trim hdot), Text.isTrimmed_trim piece⟩

theorem addressed (hne : path ≠ []) (hnamed : ∀ key ∈ path, Text.allBlank key = false) :
    path.Addressed := by
  have hdotted {s : String} (h : ofDotted s = path) : path.IsPlain := isPlain_of_ofDotted h hnamed
  refine ⟨?_, ?_, fun s h => ofDotted_dotted (hdotted h) hne,
    fun s h => TokenValue.ofScalar_expression (TokenValue.isReferable_of_ofScalar h)⟩
  · rw [← isPlain_iff hnamed]
    exact ⟨hdotted, fun h => ofDotted_dotted h hne⟩
  · rw [← isReferable_iff hne hnamed]
    exact ⟨TokenValue.isReferable_of_ofScalar, TokenValue.ofScalar_expression⟩

/-! ## Paths with one dotted form -/

/-- The pieces that dots cut the keys of a path into. -/
def pieces (path : TokenPath) : List (List Char) :=
  path.flatMap fun key => Text.splitAtChar '.' key.toList

theorem splitAtChar_dotted (hne : path ≠ []) :
    Text.splitAtChar '.' path.dotted.toList = path.pieces := by
  have hdot : ".".toList = ['.'] := rfl
  rw [dotted, String.toList_intercalate, hdot, Text.splitAtChar_intercalate (by simpa using hne),
    List.flatMap_map, pieces]

/-- Two paths have the same dotted form if and only if dots cut them into the same pieces. -/
theorem dotted_eq_dotted_iff (hne : path ≠ []) (hother : other ≠ []) :
    path.dotted = other.dotted ↔ path.pieces = other.pieces := by
  rw [← splitAtChar_dotted hne, ← splitAtChar_dotted hother]
  refine ⟨fun h => by rw [h], fun h => ?_⟩
  have hjoined := (Text.splitAtChar_spec '.' path.dotted.toList).2
  rw [h, (Text.splitAtChar_spec '.' other.dotted.toList).2] at hjoined
  exact String.toList_inj.mp hjoined.symm

theorem pieces_of_not_mem (h : ∀ key ∈ path, '.' ∉ key.toList) :
    path.pieces = path.map String.toList := by
  rw [pieces, ← List.flatMap_singleton' (path.map String.toList), List.flatMap_map]
  exact List.flatMap_congr fun key hkey => Text.splitAtChar_of_not_mem (h key hkey)

/-- Different paths share a dotted form only if a key has a dot. -/
theorem exists_dot_of_dotted_eq (hne : path ≠ []) (hother : other ≠ []) (hdiff : path ≠ other)
    (h : path.dotted = other.dotted) : ∃ key ∈ path ++ other, '.' ∈ key.toList := by
  by_contra hnone
  have hkeys : ∀ key ∈ path ++ other, '.' ∉ key.toList := fun key hkey hdot =>
    hnone ⟨key, hkey, hdot⟩
  obtain ⟨hpath, hrest⟩ := List.forall_mem_append.mp hkeys
  rw [dotted_eq_dotted_iff hne hother, pieces_of_not_mem hpath, pieces_of_not_mem hrest] at h
  exact hdiff (List.map_injective_iff.mpr (fun _ _ => String.toList_inj.mp) h)

end TokenPath

/-! ## Tokens of documents and trees -/

/-- No key on the way to a token of a document is blank. -/
theorem Document.named_of_mem_flatten {name : DocumentName} {document : Datum}
    {tokens : List Token} (h : flatten name document = .ok tokens) {tok : Token}
    (hmem : tok ∈ tokens) : ∀ key ∈ tok.path, Text.allBlank key = false := by
  obtain ⟨root, rfl, hroot⟩ := flattened_root h
  obtain ⟨_, _, _, hmakes⟩ := hroot.exists_makes tok hmem
  rw [hmakes.typed.made.path]
  exact hmakes.named

theorem Document.addressed_of_mem_flatten {name : DocumentName} {document : Datum}
    {tokens : List Token} (h : flatten name document = .ok tokens) {tok : Token}
    (hmem : tok ∈ tokens) : tok.path.Addressed :=
  TokenPath.addressed (path_ne_nil_of_mem_flatten h tok hmem) (named_of_mem_flatten h hmem)

namespace Pipeline

/-- A call that names a path looks up this path in the tree of the mode. -/
theorem result_resolveToken {pipeline : Pipeline} {tree : FileTree} {mode dotted : String}
    {composed : TokenTree} (h : (pipeline.composeMode tree mode).result = .ok composed) :
    (pipeline.resolveToken tree dotted mode).result =
      ((pipeline.composeMode tree mode).pipeline.cache.resolvePath composed mode
        (TokenPath.ofDotted dotted)).1 := by
  unfold resolveToken
  simp only [h]

/-- A token of a document is led to by its dotted form and by its expression, as far as the keys on
the way to it can be written in them, and by no other texts if not.  So it is with the tokens of a
composed tree: texts that lead to one are those that look it up, and two of them share a dotted form
if and only if dots cut their paths into the same pieces, so only if a key has a dot. -/
theorem tokens_addressed (pipeline : Pipeline) (tree : FileTree) (mode : String) :
    (∀ name document tokens, Document.flatten name document = .ok tokens →
      ∀ tok ∈ tokens, tok.path.Addressed) ∧
    ∀ composed, (pipeline.composeMode tree mode).result = .ok composed →
      ∀ path ∈ OrderedMap.keys composed, path.Addressed ∧
        (∀ dotted, TokenPath.ofDotted dotted = path →
          (pipeline.resolveToken tree dotted mode).result =
            ((pipeline.composeMode tree mode).pipeline.cache.resolvePath composed mode
              path).1) ∧
        ∀ other ∈ OrderedMap.keys composed,
          (path.dotted = other.dotted ↔ path.pieces = other.pieces) ∧
          (path ≠ other → path.dotted = other.dotted →
            ∃ key ∈ path ++ other, '.' ∈ key.toList) := by
  refine ⟨fun name document tokens h tok hmem => Document.addressed_of_mem_flatten h hmem,
    fun composed hcomposed path hpath => ?_⟩
  obtain ⟨_, rfl⟩ := composeMode_eq_ok hcomposed
  have hne {path : TokenPath} (hpath : path ∈ OrderedMap.keys (Cascade.compose
      (Store.load true tree pipeline.store pipeline.config.layers).layers mode)) : path ≠ [] :=
    Store.ne_nil_of_mem_keys_compose hpath
  refine ⟨?_, ?_, fun other hother => ?_⟩
  · obtain ⟨_, _, _, hflatten, tok, htok, rfl⟩ := Store.exists_flatten_of_mem_keys_compose hpath
    exact Document.addressed_of_mem_flatten hflatten htok
  · rintro dotted rfl
    exact result_resolveToken hcomposed
  · exact ⟨TokenPath.dotted_eq_dotted_iff (hne hpath) (hne hother),
      TokenPath.exists_dot_of_dotted_eq (hne hpath) (hne hother)⟩

/-- Settings with one layer, whose tokens stand in the settings. -/
def inlineConfig (fields : Datum.Pairs) : Config :=
  { Config.oneDocument with
    layers := [{ name := "base", source := none, data := some fields, mode := none
                 group := "tokens", emit := true, skippable := false }] }

/-- A document with a key that has a dot. -/
def dottedFields : Datum.Pairs :=
  [(.str "a.b", .map [(.str "value", .int 1)])]

/-- The same document with a token that the dotted form of the first one leads to. -/
def sharedFields : Datum.Pairs :=
  dottedFields ++ [(.str "a", .map [(.str "b", .map [(.str "value", .int 2)])])]

theorem tokens_addressed_sharedFields :
    (∃ tokens, Document.flatten ⟨"base", "base.json"⟩ (.map sharedFields) = .ok tokens ∧
      tokens.map Token.path = [["a.b"], ["a", "b"]] ∧ ∀ tok ∈ tokens, tok.path.Addressed) ∧
    let pipeline := new (inlineConfig sharedFields) .empty false
    ∃ composed, (pipeline.composeMode ⟨[], [], 0⟩ "light").result = .ok composed ∧
      OrderedMap.keys composed = [["a.b"], ["a", "b"]] ∧
      (pipeline.resolveToken ⟨[], [], 0⟩ "a.b" "light").result =
        ((pipeline.composeMode ⟨[], [], 0⟩ "light").pipeline.cache.resolvePath composed "light"
          ["a", "b"]).1 ∧
      ∃ key ∈ [["a.b"], ["a", "b"]].flatten, '.' ∈ key.toList := by
  let pipeline : Pipeline := new (inlineConfig sharedFields) .empty false
  obtain ⟨hdocuments, htrees⟩ := tokens_addressed pipeline ⟨[], [], 0⟩ "light"
  refine ⟨⟨_, rfl, rfl, hdocuments ⟨"base", "base.json"⟩ (.map sharedFields) _ rfl⟩, _, rfl, rfl,
    ?_, ?_⟩
  · have hshared := htrees _ rfl ["a", "b"] (by decide)
    exact hshared.2.1 "a.b" (by decide)
  · have hdot := htrees _ rfl ["a.b"] (by decide)
    exact (hdot.2.2 ["a", "b"] (by decide)).2 (by decide) (by decide)

/-- A document with the key is accepted, but the dotted form of its token is read as another path,
and so is its expression; the call that names the token looks up this other path. -/
theorem dotted_key_leads_elsewhere :
    ∃ tok, Document.flatten ⟨"base", "<inline:base>"⟩ (.map dottedFields) = .ok [tok] ∧
      tok.path = ["a.b"] ∧ TokenPath.ofDotted tok.path.dotted = ["a", "b"] ∧
      TokenValue.ofScalar (.str (TokenValue.expression tok.path)) = .reference ["a", "b"] ∧
      ((new (inlineConfig dottedFields) .empty false).resolveToken ⟨[], [], 0⟩ tok.path.dotted
        "light").result = .error (.error (.unresolved
          ⟨"light", ["a", "b"], ["a", "b"], [["a", "b"]]⟩)) := by
  refine ⟨_, rfl, rfl, by decide, by decide, ?_⟩
  have hcomposed : ((new (inlineConfig dottedFields) .empty false).composeMode ⟨[], [], 0⟩
      "light").result =
        .ok [(["a.b"], ⟨["a.b"], some .number, .literal (.int 1), "base", none⟩)] := rfl
  rw [result_resolveToken hcomposed, ResolutionCache.resolvePath_of_isRenderable (by decide +kernel)]
  rfl

end Pipeline

end DesignTokens
