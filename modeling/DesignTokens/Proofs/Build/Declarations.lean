import DesignTokens.Proofs.Build.History
import DesignTokens.Proofs.Build.Sheets
import DesignTokens.Proofs.Css.Rule
import DesignTokens.Proofs.Resolution.Values
/-!
# No value gets out of its declaration

Documents are checked for delimiters where they are loaded, and text is written two stages later.
In between, values move along references, and between builds through the cache; but all of them are
literals of loaded documents.  So whatever a build declares stays within its declaration, and every
rule block can be read back.
-/

set_option autoImplicit false

namespace DesignTokens

variable {holds : Scalar → Prop} {cache : ResolutionCache}

/-! ## From the documents to the resolved trees -/

/-- What holds of the literals of all layers holds of those of every composed tree. -/
theorem Cascade.allLiterals_compose {layers : List Layer}
    (h : ∀ layer ∈ layers, ∀ token ∈ layer.tokens,
      ∀ literal, token.value = .literal literal → holds literal) (mode : String) :
    (compose layers mode).AllLiterals holds := by
  intro path token hget literal hvalue
  rw [get?_compose] at hget
  obtain ⟨layer, hlayer, htoken⟩ := exists_winningLayer?_of_winner? hget
  exact h layer (mem_layers_of_winningLayer? hlayer) token htoken literal hvalue

/-- No literal of a tree that is composed from loaded documents has a delimiter. -/
theorem Store.contained_compose (collect : Bool) (tree : FileTree) (store : Store)
    (sources : List LayerSource) (mode : String) :
    (Cascade.compose (load collect tree store sources).layers mode).AllLiterals
      Scalar.Contained := by
  refine Cascade.allLiterals_compose ?_ mode
  intro layer hlayer token htoken literal hvalue
  exact contained_of_mem_layers hlayer htoken hvalue

/-- A mode's tree is composed from the layers, also if the mode is asked for twice. -/
theorem Cascade.exists_mode_of_mem_composeAll {layers : List Layer} {modes : List String}
    {entry : String × TokenTree} (h : entry ∈ composeAll layers modes) :
    ∃ mode ∈ modes, entry = (mode, compose layers mode) := by
  have hget := OrderedMap.get?_eq_some_of_mem (OrderedMap.nodup_keys_ofPairs _) h
  rw [OrderedMap.get?_ofPairs, Option.map_eq_some_iff] at hget
  obtain ⟨pair, hpair, hvalue⟩ := hget
  have hkey : pair.1 = entry.1 := by simpa using List.find?_some hpair
  obtain ⟨mode, hmode, rfl⟩ :=
    List.mem_map.mp (List.mem_reverse.mp (List.mem_of_find?_eq_some hpair))
  exact ⟨mode, hmode, Prod.ext hkey.symm hvalue.symm⟩

namespace ResolutionCache

/-- What holds of all that is remembered, and of the literals of the trees that are resolved, holds
of all that is remembered afterwards. -/
theorem All.resolvesOnly {allowed : TokenTree → Prop} {after : ResolutionCache}
    (h : cache.All holds) (hallowed : ∀ tree, allowed tree → tree.AllLiterals holds)
    (hcalls : ResolvesOnly allowed cache after) : after.All holds := by
  obtain ⟨calls, rfl, htrees⟩ := hcalls
  exact h.after fun tree htree => hallowed tree (htrees tree htree)

/-- The caches that there are: a new one, and what a call of any pipeline with valid settings leaves
of one.  A cache may serve several pipelines in turn. -/
inductive Served : ResolutionCache → Prop where
  | empty : Served .empty
  | call {pipeline : Pipeline} (tree : FileTree) (call : Pipeline.Call)
      (hvalid : pipeline.config.Valid) (hcache : Served pipeline.cache) :
      Served (pipeline.afterCall tree call).cache

/-- Nothing that a cache remembers has a delimiter. -/
theorem Served.contained (h : cache.Served) : cache.All Scalar.Contained := by
  induction h with
  | empty => exact all_empty _
  | call tree call hvalid _ ih =>
    refine ih.resolvesOnly ?_ (Pipeline.leaves_afterCall hvalid tree call).cache
    rintro composed ⟨mode, _, rfl⟩
    exact Store.contained_compose true tree _ _ mode

end ResolutionCache

namespace Build

/-- What holds of the literals of all trees, and of all that is remembered, holds of every resolved
value. -/
theorem all_resolveAll {composed : List (String × TokenTree)} (h : cache.All holds)
    (hcomposed : ∀ entry ∈ composed, entry.2.AllLiterals holds) (collect detailed : Bool) :
    ∀ resolved ∈ (resolveAll collect detailed cache composed).resolved,
      ∀ entry ∈ resolved.2, holds entry.2.value := by
  induction composed generalizing cache with
  | nil => exact fun resolved hmem => absurd hmem List.not_mem_nil
  | cons first rest ih =>
    obtain ⟨mode, tree⟩ := first
    obtain ⟨hvalues, hafter⟩ := h.resolve (hcomposed _ List.mem_cons_self) collect mode
    have hrest := ih hafter fun entry hentry => hcomposed entry (List.mem_cons_of_mem _ hentry)
    intro resolved hmem
    rw [resolveAll] at hmem
    simp only at hmem
    split at hmem
    · exact absurd hmem List.not_mem_nil
    · rcases List.mem_cons.mp hmem with rfl | hlater
      · exact hvalues
      · exact hrest resolved hlater

/-! ## The declarations -/

/-- All declarations of a build with the given resolved trees: sheet by sheet, and in each of them
mode by mode. -/
def declared (config : Config) (trees : Css.ResolvedModes) : List Css.Declaration :=
  (Css.emittedPaths config trees).flatMap fun sheet =>
    (Css.builtModes config trees).flatMap fun mode => sheet.2.map (declareIn trees mode)

variable {config : Config} {trees : Css.ResolvedModes}

theorem exists_of_mem_declared {d : Css.Declaration} (h : d ∈ declared config trees) :
    ∃ mode ∈ Css.builtModes config trees, ∃ path ∈ emittedPaths config trees,
      d = declareIn trees mode path := by
  obtain ⟨sheet, hsheet, hblocks⟩ := List.mem_flatMap.mp h
  obtain ⟨mode, hmode, hblock⟩ := List.mem_flatMap.mp hblocks
  obtain ⟨path, hpath, rfl⟩ := List.mem_map.mp hblock
  exact ⟨mode, hmode, path, List.mem_flatMap.mpr ⟨sheet, hsheet, hpath⟩, rfl⟩

/-- If no value of the trees has a delimiter, every declaration is contained. -/
theorem contained_of_mem_declared {files : List OutputFile}
    (hvalues : ∀ resolved ∈ trees, ∀ entry ∈ resolved.2, entry.2.value.Contained)
    (hcollisions : (Claims.ofPaths (emittedPaths config trees)).collisions = [])
    (hfiles : Css.files config trees
      (Claims.ofPaths (emittedPaths config trees)).identifiers = .ok files)
    {d : Css.Declaration} (hd : d ∈ declared config trees) : d.Contained := by
  obtain ⟨mode, hmode, path, hpath, rfl⟩ := exists_of_mem_declared hd
  obtain ⟨tree, token, htree, htoken, hdeclared⟩ :=
    exists_declaration_of_files_eq_ok hcollisions hfiles hmode hpath
  rw [hdeclared]
  refine ⟨Identifier.exists_body_ofPath path, Css.contained_renderValue ?_ token.type⟩
  exact hvalues (mode, tree) (OrderedMap.mem_of_get?_eq_some htree) (path, token)
    (OrderedMap.mem_of_get?_eq_some htoken)

end Build

/-- All declarations of a build are contained, as its documents and its cache are. -/
theorem Pipeline.contained_of_buildUnder {refuses : Output.Refusals} {pipeline : Pipeline}
    {tree : FileTree} {options : BuildOptions} {result : BuildResult}
    (hcache : pipeline.cache.Served)
    (hresult : (pipeline.buildUnder refuses tree options).result = .ok result) :
    ∀ d ∈ Build.declared pipeline.config result.resolved, d.Contained := by
  obtain ⟨modes, _, _, _, hfindings, hplan⟩ :=
    Build.planning_eq_ok_iff.mp (plan_of_buildUnder_eq_ok hresult)
  obtain ⟨hstopped, hresolved, hfiles⟩ := Build.plan_eq_ok_iff.mp hplan
  obtain ⟨_, _, hcollisions⟩ := Build.findings_eq_nil hstopped hfindings
  unfold Build.claiming at hcollisions hfiles
  simp only at hresolved hfiles hcollisions
  -- Not even a stale memory would matter here: whatever is remembered was a literal once.
  have hvalues : ∀ resolved ∈ result.resolved, ∀ entry ∈ resolved.2,
      entry.2.value.Contained := by
    rw [hresolved]
    refine Build.all_resolveAll hcache.contained ?_ true _
    intro entry hentry
    obtain ⟨mode, _, rfl⟩ := Cascade.exists_mode_of_mem_composeAll hentry
    exact Store.contained_compose true tree _ _ mode
  rw [← hresolved] at hcollisions hfiles
  intro d hd
  exact Build.contained_of_mem_declared hvalues hcollisions hfiles hd

/-- Whatever the documents say, a build that succeeds writes its declarations in the rule blocks of
its sheets, every declaration has a property name and a value without delimiters and stray blanks,
and every rule block of declarations of the build, in either layout, is read back as these. -/
theorem Pipeline.build_declares_contained (refuses : Output.Refusals) (pipeline : Pipeline)
    (tree : FileTree) (options : BuildOptions) (result : BuildResult)
    (hcache : pipeline.cache.Served)
    (hresult : (pipeline.buildUnder refuses tree options).result = .ok result) :
    let sheets := Css.emittedPaths pipeline.config result.resolved
    let modes := Css.builtModes pipeline.config result.resolved
    let declarations := Build.declared pipeline.config result.resolved
    result.files = Css.filesOf pipeline.config modes (Build.declareIn result.resolved) sheets ∧
    (∀ d ∈ declarations, Css.IsPropertyName d.name ∧ Css.Contained d.value) ∧
    ∀ minify selector, '\x7b' ∉ selector.toList → ∀ block, block ⊆ declarations →
      Css.readRule (Css.rule minify selector block) = block := by
  obtain ⟨modes, _, _, _, hfindings, hplan⟩ :=
    Build.planning_eq_ok_iff.mp (plan_of_buildUnder_eq_ok hresult)
  obtain ⟨hstopped, hresolved, hfiles⟩ := Build.plan_eq_ok_iff.mp hplan
  obtain ⟨_, _, hcollisions⟩ := Build.findings_eq_nil hstopped hfindings
  unfold Build.claiming at hcollisions hfiles
  simp only at hresolved hfiles hcollisions
  rw [← hresolved] at hcollisions hfiles
  have hcontained := contained_of_buildUnder hcache hresult
  refine ⟨Build.files_eq_of_files_eq_ok hcollisions hfiles, ?_, ?_⟩
  · intro d hd
    exact ⟨(hcontained d hd).name, (hcontained d hd).value⟩
  · intro minify selector hselector block hblock
    exact Css.readRule_rule minify hselector fun d hd => hcontained d (hblock hd)

theorem Pipeline.build_declares_twoPalettes :
    ResolutionCache.Served .empty ∧ ∃ result,
      ((Pipeline.new .twoPalettes .empty false).buildUnder Output.noRefusals ⟨[], [], 1⟩
        .plain).result = .ok result ∧
      (let sheets := Css.emittedPaths .twoPalettes result.resolved
      let modes := Css.builtModes .twoPalettes result.resolved
      let declarations := Build.declared .twoPalettes result.resolved
      result.files = Css.filesOf .twoPalettes modes (Build.declareIn result.resolved) sheets ∧
      (∀ d ∈ declarations, Css.IsPropertyName d.name ∧ Css.Contained d.value) ∧
      ∀ minify selector, '\x7b' ∉ selector.toList → ∀ block, block ⊆ declarations →
        Css.readRule (Css.rule minify selector block) = block) := by
  have hok : ((Pipeline.new .twoPalettes .empty false).buildUnder Output.noRefusals ⟨[], [], 1⟩
      .plain).result.isOk = true := by
    decide +kernel
  cases hresult : ((Pipeline.new .twoPalettes .empty false).buildUnder Output.noRefusals
      ⟨[], [], 1⟩ .plain).result with
  | error failure =>
    rw [hresult] at hok
    cases hok
  | ok result =>
    exact ⟨.empty, result, rfl, Pipeline.build_declares_contained Output.noRefusals
      (.new .twoPalettes .empty false) ⟨[], [], 1⟩ .plain result .empty hresult⟩

end DesignTokens
