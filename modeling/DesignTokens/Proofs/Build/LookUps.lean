import DesignTokens.Proofs.Build.Reuse
import DesignTokens.Proofs.Dotted
import DesignTokens.Proofs.Resolution.LookUp
/-!
# Look-ups among builds

A look-up of a single token composes the tree of its mode from the documents as they are, and shares
what a pipeline remembers with its builds.  It says of a path what resolving the whole tree says, or
breaks down as that does, and leaves nothing behind that a later build could show.
-/

set_option autoImplicit false

namespace DesignTokens

/-- What a mode is composed to in each of some file trees. -/
def Config.treesOf (config : Config) (files : List FileTree) (mode : String) : List TokenTree :=
  files.map fun tree => Cascade.compose (config.freshLayers tree) mode

/-- What happened to the documents can be told from what is kept of them: no path has held two texts
under one time, and no mode has been composed to two trees of one fingerprint. -/
structure Config.Legible (config : Config) (files : List FileTree) : Prop where
  dated : FileTree.Dated config.documentPaths files
  apart : ∀ mode ∈ config.modes, ∀ first ∈ config.treesOf files mode,
    ∀ second ∈ config.treesOf files mode, first.fingerprint = second.fingerprint →
      first.canonical = second.canonical

/-- The trees of a mode are told apart by their fingerprints. -/
theorem Config.Legible.distinguished {config : Config} {files : List FileTree}
    (h : config.Legible files) {mode : String} (hmode : mode ∈ config.modes) :
    ResolutionCache.Distinguished (config.treesOf files mode) := by
  refine ⟨fun tree htree => ?_, h.apart mode hmode⟩
  obtain ⟨_, _, rfl⟩ := List.mem_map.mp htree
  exact Cascade.keyed_compose _ mode

/-- As long as the documents that load do not change, nothing can be mistaken. -/
theorem Config.legible_of_sameAt {config : Config} {files : List FileTree}
    (hloads : ∀ tree ∈ files, config.Loads tree)
    (hsame : ∀ first ∈ files, ∀ second ∈ files, ∀ path ∈ config.documentPaths,
      FileTree.SameAt path first second) : config.Legible files := by
  have hlayers : ∀ first ∈ files, ∀ second ∈ files,
      config.freshLayers first = config.freshLayers second := by
    intro first hfirst second hsecond
    rw [(hloads first hfirst).freshLayers_eq, (hloads second hsecond).freshLayers_eq]
    refine List.filterMap_congr fun source hsource => ?_
    refine Store.freshLayer?_congr fun path hpath => ?_
    exact hsame first hfirst second hsecond path
      (Store.readsWithin_documentPaths config source hsource path hpath)
  refine ⟨fun path hpath first hfirst second hsecond _ _ => ?_, ?_⟩
  · exact (hsame first hfirst second hsecond path hpath).text
  · intro mode _ first hfirst second hsecond _
    obtain ⟨tree, htree, rfl⟩ := List.mem_map.mp hfirst
    obtain ⟨tree', htree', rfl⟩ := List.mem_map.mp hsecond
    rw [hlayers tree htree tree' htree']

/-- A single tree cannot be mistaken for another one. -/
theorem Config.legible_singleton (config : Config) (tree : FileTree) : config.Legible [tree] := by
  refine ⟨FileTree.dated_singleton _ tree, fun mode _ first hfirst second hsecond _ => ?_⟩
  rw [List.mem_singleton.mp hfirst, List.mem_singleton.mp hsecond]

/-! ## What a build leaves of the terminals -/

namespace Build

variable {task : Task} {progress : Progress} {trees : String → List TokenTree}
  {cache : ResolutionCache}

/-- Resolving trees of the modes keeps what is remembered true. -/
theorem soundIn_resolveAll (h : cache.SoundIn trees) {composed : List (String × TokenTree)}
    (hcomposed : ∀ entry ∈ composed, entry.2 ∈ trees entry.1 ∧
      ResolutionCache.Distinguished (trees entry.1)) (collect detailed : Bool) :
    (resolveAll collect detailed cache composed).cache.SoundIn trees := by
  induction composed generalizing cache with
  | nil => exact h
  | cons entry rest ih =>
    obtain ⟨mode, tree⟩ := entry
    obtain ⟨htree, hdistinguished⟩ := hcomposed _ List.mem_cons_self
    have hfirst : (cache.resolve collect tree mode).2.SoundIn trees :=
      h.resolve hdistinguished htree collect
    rw [resolveAll]
    simp only
    split
    · exact hfirst
    · exact ih hfirst fun entry hentry => hcomposed entry (List.mem_cons_of_mem _ hentry)

/-- So does planning, if the loaded layers are composed to trees of the modes. -/
theorem soundIn_planning (hvalid : task.config.Valid) (h : progress.cache.SoundIn trees)
    (hcomposed : ∀ mode ∈ task.config.modes,
      Cascade.compose (Store.load true task.tree progress.store task.config.layers).layers mode ∈
        trees mode ∧ ResolutionCache.Distinguished (trees mode)) :
    (planning task progress).progress.cache.SoundIn trees := by
  cases hmodes : selectModes task.config task.options.modes with
  | error e =>
    rw [planning_eq]
    unfold selecting Step.andThen
    rw [hmodes]
    exact h
  | ok modes =>
    rw [planning_of_modes hmodes]
    refine Step.progress_andThen (fun after => after.cache.SoundIn trees)
      (by rw [cache_loading]; exact h) fun layers hlayers => ?_
    cases (resolves_checking task (loading task progress).progress layers modes).cache with
    | inl hsame =>
      rw [hsame, cache_loading]
      exact h
    | inr hresolved =>
      rw [hresolved, cache_loading]
      refine soundIn_resolveAll h (fun entry hentry => ?_) _ _
      have hsub := sublist_of_selectModes hmodes
      rw [Cascade.composeAll_of_nodup layers (nodup_of_selectModes hvalid hmodes)] at hentry
      obtain ⟨mode, hmode, rfl⟩ := List.mem_map.mp hentry
      rw [layers_of_loading_eq_ok hlayers]
      exact hcomposed mode (hvalid.mem_orderedModes.mp (hsub.subset hmode))

end Build

namespace Pipeline

variable {config : Config} {detailed : Bool} {files : List FileTree} {pipeline : Pipeline}
  {tree : FileTree}

/-- Whether a call looks up a single token. -/
def Call.isLookUp : Call → Bool
  | .resolveToken _ _ => true
  | _ => false

/-- How the builds of a history end, and the tree that each of them leaves. -/
def endings (pipeline : Pipeline) :
    List (FileTree × Call) → List (Except Failure Build.Planned × FileTree)
  | [] => []
  | (tree, .build refuses options) :: later =>
    let answer := pipeline.buildUnder refuses tree options
    (answer.result.map BuildResult.planned, answer.tree) :: endings answer.pipeline later
  | (tree, call) :: later => endings (pipeline.afterCall tree call) later

/-! ## What a pipeline keeps -/

/-- What a pipeline keeps is true of some file trees: its documents are theirs, and the terminals of
a mode are those of the trees that the mode is composed to. -/
structure TrueTo (config : Config) (detailed : Bool) (files : List FileTree)
    (pipeline : Pipeline) : Prop where
  upToDate : UpToDate config files [] pipeline
  detailed_eq : pipeline.detailed = detailed
  terminals : pipeline.cache.SoundIn (config.treesOf files)

theorem trueTo_new (config : Config) (detailed : Bool) (files : List FileTree) :
    TrueTo config detailed files (new config .empty detailed) :=
  ⟨upToDate_new config detailed files [], rfl, ResolutionCache.soundIn_empty _⟩

/-- The tree of a mode that is composed is that of the loaded layers. -/
theorem composeMode_eq_ok {mode : String} {composed : TokenTree}
    (h : (pipeline.composeMode tree mode).result = .ok composed) :
    mode ∈ pipeline.config.modes ∧ composed = Cascade.compose
      (Store.load true tree pipeline.store pipeline.config.layers).layers mode := by
  unfold composeMode at h
  cases hmodes : Build.selectModes pipeline.config (some [mode]) with
  | error e => simp [hmodes] at h
  | ok modes =>
    refine ⟨Build.mem_modes_of_selectModes hmodes List.mem_cons_self, ?_⟩
    simp only [hmodes] at h
    split at h
    · cases h
    · rename_i hstopped
      rw [Store.load_strict_of_stopped_eq_none hstopped] at h
      exact (Except.ok.inj h).symm

/-- What is loaded with true documents is composed to trees of the modes. -/
theorem TrueTo.mem_treesOf (h : TrueTo config detailed files pipeline)
    (hlegible : config.Legible files) (htree : tree ∈ files) {mode : String} :
    Cascade.compose (Store.load true tree pipeline.store config.layers).layers mode ∈
      config.treesOf files mode := by
  rw [(h.upToDate.load_alike hlegible.dated htree true).layers]
  exact List.mem_map.mpr ⟨tree, htree, rfl⟩

/-- What a pipeline remembers is true of the trees that its layers are composed to. -/
theorem TrueTo.remembers (h : TrueTo config detailed files pipeline)
    (hlegible : config.Legible files) (htree : tree ∈ files) (modes : List String) :
    Build.Remembers pipeline.cache
      (Store.load true tree pipeline.store config.layers).layers modes :=
  fun _ _ => h.terminals.memoFor (h.mem_treesOf hlegible htree)

/-- A build leaves true terminals. -/
theorem TrueTo.terminals_build (h : TrueTo config detailed files pipeline) (hvalid : config.Valid)
    (hlegible : config.Legible files) (htree : tree ∈ files) (refuses : Output.Refusals)
    (options : BuildOptions) :
    (pipeline.buildUnder refuses tree options).pipeline.cache.SoundIn (config.treesOf files) := by
  have hkeeps := Build.keeps_settle_stages (pipeline.task refuses tree options)
    (pipeline.start options)
  have hconfig : (pipeline.task refuses tree options).config = config := h.upToDate.config_eq
  have hplanned : (Build.planning (pipeline.task refuses tree options)
      (pipeline.start options)).progress.cache.SoundIn (config.treesOf files) := by
    refine Build.soundIn_planning (by rwa [hconfig]) h.terminals fun mode hmode => ?_
    rw [hconfig] at hmode ⊢
    exact ⟨h.mem_treesOf hlegible htree, hlegible.distinguished hmode⟩
  rwa [← hkeeps.cache] at hplanned

/-- A look-up leaves true terminals, whether it fails or not. -/
theorem TrueTo.terminals_resolveToken (h : TrueTo config detailed files pipeline)
    (hlegible : config.Legible files) (htree : tree ∈ files) (dotted mode : String) :
    (pipeline.resolveToken tree dotted mode).pipeline.cache.SoundIn (config.treesOf files) := by
  obtain ⟨_, hcache, _⟩ := leaves_composeMode pipeline tree mode
  unfold resolveToken
  simp only
  split
  · rw [hcache]
    exact h.terminals
  · rename_i tokens htokens
    obtain ⟨hmode, rfl⟩ := composeMode_eq_ok htokens
    rw [h.upToDate.config_eq] at hmode ⊢
    simp only [hcache]
    exact h.terminals.resolvePath (hlegible.distinguished hmode) (h.mem_treesOf hlegible htree) _

/-- Whatever is asked of a pipeline, it keeps what is true of the files. -/
theorem TrueTo.afterCall (h : TrueTo config detailed files pipeline) (hvalid : config.Valid)
    (hlegible : config.Legible files) (htree : tree ∈ files) (call : Call) :
    TrueTo config detailed files (pipeline.afterCall tree call) := by
  have hleaves : Leaves tree pipeline (pipeline.afterCall tree call) :=
    leaves_afterCall (by rwa [h.upToDate.config_eq]) tree call
  obtain ⟨hdataDir, hdocuments⟩ := h.upToDate.documents_step hlegible.dated htree hleaves
  refine ⟨⟨hleaves.config.trans h.upToDate.config_eq, hdataDir, hdocuments, ?_⟩,
    hleaves.detailed.trans h.detailed_eq, ?_⟩
  · intro _ _ _ other hother
    cases hother
  · cases call with
    | build refuses options => exact h.terminals_build hvalid hlegible htree refuses options
    | resolveToken dotted mode => exact h.terminals_resolveToken hlegible htree dotted mode
    | forgetDocuments => exact h.terminals
    | forgetTerminals => exact ResolutionCache.soundIn_clear _ _

/-- So it does over a history of calls. -/
theorem TrueTo.after {history : List (FileTree × Call)}
    (h : TrueTo config detailed files pipeline) (hvalid : config.Valid)
    (hlegible : config.Legible files) (hfiles : ∀ made ∈ history, made.1 ∈ files) :
    TrueTo config detailed files (pipeline.after history) := by
  induction history generalizing pipeline with
  | nil => exact h
  | cons made later ih =>
    have hfirst := h.afterCall hvalid hlegible (hfiles made List.mem_cons_self) made.2
    exact ih hfirst fun made' hmade' => hfiles made' (List.mem_cons_of_mem _ hmade')

/-! ## Builds -/

/-- A pipeline that keeps what is true plans what a new one plans. -/
theorem TrueTo.plan_eq (h : TrueTo config detailed files pipeline) (hvalid : config.Valid)
    (hlegible : config.Legible files) (htree : tree ∈ files) (refuses : Output.Refusals)
    (options : BuildOptions) :
    pipeline.plan refuses tree options =
      (new config .empty detailed).plan refuses tree options := by
  have hload (collect : Bool) := h.upToDate.load_alike hlegible.dated htree collect
  unfold plan task
  rw [h.upToDate.config_eq, h.detailed_eq]
  refine Build.outcome_planning_congr hload fun modes hmodes => ?_
  exact ⟨Build.nodup_of_selectModes hvalid hmodes, h.remembers hlegible htree modes,
    Build.remembers_empty _ _⟩

/-- Builds that are planned alike end alike. -/
theorem ending_congr {other : Pipeline} {refuses : Output.Refusals} {options : BuildOptions}
    (hconfig : pipeline.config = other.config) (hdetailed : pipeline.detailed = other.detailed)
    (hplan : pipeline.plan refuses tree options = other.plan refuses tree options) :
    (pipeline.buildUnder refuses tree options).result.map BuildResult.planned =
        (other.buildUnder refuses tree options).result.map BuildResult.planned ∧
      (pipeline.buildUnder refuses tree options).tree =
        (other.buildUnder refuses tree options).tree := by
  have htask : pipeline.task refuses tree options = other.task refuses tree options := by
    unfold task
    rw [hconfig, hdetailed]
  unfold plan at hplan
  rw [htask] at hplan
  obtain ⟨houtcome, htree⟩ := Build.stages_congr hplan
  constructor
  · rw [result_buildUnder, result_buildUnder, htask, houtcome]
  · unfold buildUnder
    simp only
    rw [htask, htree]

/-- How a build of a new pipeline ends; other calls are no builds. -/
def freshEnding? (config : Config) (detailed : Bool) (made : FileTree × Call) :
    Option (Except Failure Build.Planned × FileTree) :=
  match made.2 with
  | .build refuses options =>
    let answer := (new config .empty detailed).buildUnder refuses made.1 options
    some (answer.result.map BuildResult.planned, answer.tree)
  | _ => none

/-- The builds of a history end as they do on new pipelines. -/
theorem TrueTo.endings_eq {history : List (FileTree × Call)}
    (h : TrueTo config detailed files pipeline) (hvalid : config.Valid)
    (hlegible : config.Legible files) (hfiles : ∀ made ∈ history, made.1 ∈ files) :
    pipeline.endings history = history.filterMap (freshEnding? config detailed) := by
  induction history generalizing pipeline with
  | nil => rfl
  | cons made later ih =>
    obtain ⟨tree, call⟩ := made
    have htree : tree ∈ files := hfiles _ List.mem_cons_self
    have hlater := ih (h.afterCall hvalid hlegible htree call) fun made' hmade' =>
      hfiles made' (List.mem_cons_of_mem _ hmade')
    cases call with
    | build refuses options =>
      obtain ⟨hresult, hleft⟩ := ending_congr h.upToDate.config_eq h.detailed_eq
        (h.plan_eq hvalid hlegible htree refuses options)
      rw [endings, List.filterMap_cons, freshEnding?]
      simp only [hresult, hleft]
      rw [← hlater]
      rfl
    | resolveToken dotted mode => exact hlater
    | forgetDocuments => exact hlater
    | forgetTerminals => exact hlater

/-! ## Look-ups -/

/-- In a pipeline that keeps what is true, the tree of a mode is composed from the documents that
load. -/
theorem TrueTo.composeMode_of_loads (h : TrueTo config detailed files pipeline)
    (hlegible : config.Legible files) (htree : tree ∈ files) (hloads : config.Loads tree)
    {mode : String} (hmode : mode ∈ config.modes) :
    (pipeline.composeMode tree mode).result =
      .ok (Cascade.compose (config.freshLayers tree) mode) := by
  have halike := h.upToDate.load_alike hlegible.dated htree true
  have hstrict : Store.load false tree pipeline.store config.layers =
      Store.load true tree pipeline.store config.layers :=
    Store.load_strict_of_errors_eq_nil (halike.errors.trans hloads.errors)
  have hstopped := halike.stopped.trans hloads.stopped
  have hselected : Build.selectModes config (some [mode]) =
      .ok (config.orderedModes.filter fun other => [mode].contains other) := by
    unfold Build.selectModes
    simp [hmode]
  unfold composeMode
  rw [h.upToDate.config_eq, hselected, hstrict]
  simp only [hstopped]
  rw [halike.layers]
  rfl

/-- In a pipeline that keeps what is true, a look-up of a token looks up its path in the tree of the
mode. -/
theorem TrueTo.result_resolveToken (h : TrueTo config detailed files pipeline)
    (hlegible : config.Legible files) (htree : tree ∈ files) (hloads : config.Loads tree)
    {mode : String} (hmode : mode ∈ config.modes) {path : TokenPath}
    (hpath : path ∈ OrderedMap.keys (Cascade.compose (config.freshLayers tree) mode))
    (hplain : path.IsPlain) :
    (pipeline.resolveToken tree path.dotted mode).result =
      (pipeline.cache.resolvePath (Cascade.compose (config.freshLayers tree) mode) mode path).1 := by
  obtain ⟨_, hcache, _⟩ := leaves_composeMode pipeline tree mode
  have hcomposed := h.composeMode_of_loads hlegible htree hloads hmode
  have hsegments : TokenPath.ofDotted path.dotted = path :=
    TokenPath.ofDotted_dotted hplain (Store.ne_nil_of_mem_keys_compose hpath)
  unfold resolveToken
  simp only [hcomposed, hsegments, hcache]

/-- What a look-up says of a path beside resolving the whole tree: they agree, or both break down, as
the tree has no fingerprint. -/
structure GoesWith (tree : TokenTree) (whole : Resolution.Outcome) (path : TokenPath)
    (found : Except Failure Scalar) : Prop where
  within : tree.WithinDigits →
    whole.stopped = none ∧ Resolution.Agrees tree whole.resolved path found
  beyond : ¬ tree.WithinDigits →
    whole.stopped = some (.breakdown .integerTooLong) ∧
      found = .error (.breakdown .integerTooLong)

/-- A look-up in a pipeline that keeps what is true goes with resolving the whole tree of the
mode. -/
theorem TrueTo.goesWith_resolveToken (h : TrueTo config detailed files pipeline)
    (hlegible : config.Legible files) (htree : tree ∈ files) (hloads : config.Loads tree)
    {mode : String} (hmode : mode ∈ config.modes) {path : TokenPath}
    (hpath : path ∈ OrderedMap.keys (Cascade.compose (config.freshLayers tree) mode))
    (hplain : path.IsPlain) :
    GoesWith (Cascade.compose (config.freshLayers tree) mode)
      (pipeline.cache.resolve true (Cascade.compose (config.freshLayers tree) mode) mode).1
      path (pipeline.resolveToken tree path.dotted mode).result := by
  have hcurrent : Cascade.compose (config.freshLayers tree) mode ∈ config.treesOf files mode :=
    List.mem_map.mpr ⟨tree, htree, rfl⟩
  rw [h.result_resolveToken hlegible htree hloads hmode hpath hplain]
  constructor
  · intro hwithin
    have hrenderable := (TokenTree.isRenderable_iff _).mpr hwithin
    exact ⟨ResolutionCache.stopped_resolve_true hrenderable _ _,
      ResolutionCache.agrees_resolvePath hrenderable (h.terminals.memoFor hcurrent) hpath⟩
  · intro hbeyond
    have hlong := (TokenTree.not_withinDigits_iff _).mp hbeyond
    rw [ResolutionCache.resolve_of_not_isRenderable hlong,
      ResolutionCache.resolvePath_of_not_isRenderable hlong]
    exact ⟨rfl, rfl⟩

theorem tree_resolveToken (pipeline : Pipeline) (tree : FileTree) (dotted mode : String) :
    (pipeline.resolveToken tree dotted mode).tree = tree := by
  unfold resolveToken
  simp only
  split <;> rfl

/-- Wherever a look-up stands in a history of calls, it says of a path of a composed tree what
resolving the whole tree says, if the documents load, or breaks down as that does, if a literal of
the tree has too many digits; and it leaves the files as they are.  All builds of the history end
as they do without any of its look-ups: with the same files, or with the same failure.  The history
may hide no change of the documents; while they load and stay as they are, it hides none
(`Config.legible_of_sameAt`). -/
theorem lookUps_agree (config : Config) (detailed : Bool) (history : List (FileTree × Call))
    (hvalid : config.Valid) (hlegible : config.Legible (history.map (·.1))) :
    (∀ before tree path mode later,
      history = before ++ (tree, .resolveToken (TokenPath.dotted path) mode) :: later →
      let used := (new config .empty detailed).after before
      let composed := Cascade.compose (config.freshLayers tree) mode
      (used.resolveToken tree path.dotted mode).tree = tree ∧
        (config.Loads tree → mode ∈ config.modes → path ∈ OrderedMap.keys composed →
          path.IsPlain → GoesWith composed (used.cache.resolve true composed mode).1 path
            (used.resolveToken tree path.dotted mode).result)) ∧
      (new config .empty detailed).endings history =
        (new config .empty detailed).endings (history.filter fun made => !made.2.isLookUp) := by
  have hnew := trueTo_new config detailed (history.map (·.1))
  have hfiles : ∀ made ∈ history, made.1 ∈ history.map (·.1) :=
    fun made hmade => List.mem_map_of_mem hmade
  constructor
  · intro before tree path mode later hhistory
    refine ⟨tree_resolveToken .., fun hloads hmode hpath hplain => ?_⟩
    have hbefore : ∀ made ∈ before, made.1 ∈ history.map (·.1) :=
      fun made hmade => hfiles made (hhistory ▸ List.mem_append_left _ hmade)
    have hused := hnew.after hvalid hlegible hbefore
    have htree : tree ∈ history.map (·.1) := by
      rw [hhistory]
      exact List.mem_map.mpr ⟨_, List.mem_append_right _ List.mem_cons_self, rfl⟩
    exact hused.goesWith_resolveToken hlegible htree hloads hmode hpath hplain
  · rw [hnew.endings_eq hvalid hlegible hfiles, hnew.endings_eq hvalid hlegible fun made hmade =>
      hfiles made (List.mem_filter.mp hmade).1, List.filterMap_filter]
    refine List.filterMap_congr fun made _ => ?_
    obtain ⟨tree, call⟩ := made
    cases call <;> rfl

/-! ## Look-ups while a document is mended -/

/-- The history with the dangling document goes on: the token is added again, looked up, and
built. -/
def mendedHistory : List (FileTree × Call) :=
  danglingHistory ++ [(.withBase mendedText 3, .resolveToken "a" "light"),
    (.withBase mendedText 3, .build Output.noRefusals .plain)]

theorem legible_mendedHistory : Config.oneDocument.Legible (mendedHistory.map (·.1)) := by
  refine ⟨by decide +kernel, fun mode hmode => ?_⟩
  rw [List.mem_singleton.mp hmode]
  refine (ResolutionCache.distinguished_of_mending fun composed hcomposed => ?_).canonical
  obtain ⟨tree, htree, rfl⟩ := List.mem_map.mp hcomposed
  simp only [mendedHistory, danglingHistory, List.cons_append, List.nil_append, List.map_cons,
    List.map_nil, List.mem_cons, List.not_mem_nil, or_false] at htree
  rcases htree with rfl | rfl | rfl | rfl | rfl
  · exact .inr (Config.compose_mendedText 1)
  · exact .inl (Config.compose_danglingText 2)
  · exact .inl (Config.compose_danglingText 2)
  · exact .inr (Config.compose_mendedText 3)
  · exact .inr (Config.compose_mendedText 3)

theorem loads_danglingText (changed : Int) :
    Config.oneDocument.Loads (.withBase danglingText changed) :=
  Config.loads_oneDocument (Config.loadLayer_oneDocument changed
    (.obj [("a", .obj [("value", .str "\x7bb\x7d")])]) (by decide +kernel) (by decide +kernel) rfl)

/-- Before the token is added again, its look-up fails as resolving the whole tree does; the builds
end as without the look-ups. -/
theorem lookUps_agree_mendedHistory :
    Config.oneDocument.Valid ∧ Config.oneDocument.Legible (mendedHistory.map (·.1)) ∧
      ResolutionCache.danglingTree.WithinDigits ∧
      (let used := (new .oneDocument .empty false).after (danglingHistory.take 2)
      (used.resolveToken (.withBase danglingText 2) "a" "light").tree =
          .withBase danglingText 2 ∧
        Resolution.Agrees ResolutionCache.danglingTree
          (used.cache.resolve true ResolutionCache.danglingTree "light").1.resolved ["a"]
          (used.resolveToken (.withBase danglingText 2) "a" "light").result) ∧
      (new .oneDocument .empty false).endings mendedHistory =
        (new .oneDocument .empty false).endings
          (mendedHistory.filter fun made => !made.2.isLookUp) := by
  obtain ⟨hlookUps, hendings⟩ := lookUps_agree .oneDocument false mendedHistory
    Config.valid_oneDocument legible_mendedHistory
  obtain ⟨htree, hagrees⟩ := hlookUps (danglingHistory.take 2) (.withBase danglingText 2) ["a"]
    "light" (mendedHistory.drop 3) rfl
  have hwithin : ResolutionCache.danglingTree.WithinDigits :=
    (TokenTree.isRenderable_iff _).mp (by decide +kernel)
  refine ⟨Config.valid_oneDocument, legible_mendedHistory, hwithin, ⟨htree, ?_⟩, hendings⟩
  rw [Config.compose_danglingText] at hagrees
  exact ((hagrees (loads_danglingText 2) List.mem_cons_self List.mem_cons_self
    (by decide +kernel)).within hwithin).2

/-! ## Look-ups beside a long literal -/

end Pipeline

/-- A layer of inline data with a literal that has too many digits. -/
def LayerSource.longLiteral : LayerSource :=
  { name := "base", source := none
    data := some [(.str "big", .map [(.str "value", .int ResolutionCache.longInteger)])]
    mode := none, group := "tokens", emit := true, skippable := false }

/-- Settings with this layer alone. -/
def Config.longLiteral : Config :=
  { Config.oneDocument with layers := [.longLiteral] }

/-- What the layer holds. -/
def Layer.longLiteral : Layer :=
  ⟨"base", none, "tokens", true, "<inline:base>", ResolutionCache.longTree.map (·.2)⟩

theorem Config.loadLayer_longLiteral (tree : FileTree) :
    ((Store.new Config.longLiteral.dataDir).loadLayer tree .longLiteral).1 =
      .ok (some .longLiteral) := rfl

theorem Config.loads_longLiteral (tree : FileTree) : Config.longLiteral.Loads tree := by
  refine loads_of_each fun source hsource => ?_
  rw [List.mem_singleton.mp hsource]
  exact ⟨_, loadLayer_longLiteral tree⟩

theorem Config.compose_longLiteral (tree : FileTree) :
    Cascade.compose (Config.longLiteral.freshLayers tree) "light" = ResolutionCache.longTree := by
  rw [(loads_longLiteral tree).freshLayers_eq]
  rfl

/-- The documents load and the path of the mode's tree leads to a literal with too many digits; but
its look-up breaks down, which neither gives a value nor says how the chain of the path ends. -/
theorem Pipeline.long_literal_is_not_found :
    let tree : FileTree := ⟨[], [], 1⟩
    Config.longLiteral.Loads tree ∧ "light" ∈ Config.longLiteral.modes ∧
      TokenPath.IsPlain ["big"] ∧
      Resolution.Leads (Cascade.compose (Config.longLiteral.freshLayers tree) "light") ["big"]
        (.int ResolutionCache.longInteger, .number) ∧
      ((new .longLiteral .empty false).resolveToken tree "big" "light").result =
        .error (.breakdown .integerTooLong) := by
  intro tree
  have hloads := Config.loads_longLiteral tree
  have hcomposed := Config.compose_longLiteral tree
  have hmode : "light" ∈ Config.longLiteral.modes := List.mem_cons_self
  have hplain : TokenPath.IsPlain ["big"] := by decide +kernel
  have hpath : ["big"] ∈
      OrderedMap.keys (Cascade.compose (Config.longLiteral.freshLayers tree) "light") := by
    rw [hcomposed]
    exact List.mem_cons_self
  have hfound := (trueTo_new .longLiteral false [tree]).goesWith_resolveToken
    (Config.legible_singleton _ _) (List.mem_singleton_self _) hloads hmode hpath hplain
  rw [hcomposed] at hfound ⊢
  exact ⟨hloads, hmode, hplain, .literal ResolutionCache.get?_longTree rfl,
    (hfound.beyond ResolutionCache.not_withinDigits_longTree).2⟩

end DesignTokens
