import DesignTokens.Proofs.Build.Again
import DesignTokens.Proofs.Build.Declarations
import DesignTokens.Proofs.Build.ModeSelection
import DesignTokens.Proofs.Build.Placement
import DesignTokens.Proofs.Css.ReadBack
import Mathlib.Algebra.BigOperators.Ring.List
/-!
# Statistics of a build

A build counts its declarations from the placement of paths alone, once and not mode by mode, and
the head of every sheet tells a product.  Both come to what the rule blocks declare, because every
placed path is declared in every mode.  Heads, blocks and imports are read back from the texts of
the files.  A normal run tells the planned files apart by whether it has written them.
-/

set_option autoImplicit false

namespace DesignTokens

/-! ## Layers of resolved tokens -/

/-- A resolved token has the layer of the token it is made of, whatever the pass knows. -/
theorem Resolution.exists_layer_of_mem_resolved {collect : Bool} {tree : TokenTree} {mode : String}
    {pass : Pass} {entries : List (TokenPath × Token)} {resolved : TokenPath × ResolvedToken}
    (h : resolved ∈ (resolveEntries collect tree mode pass entries).resolved) :
    ∃ entry ∈ entries, resolved.2.layer = entry.2.layer := by
  have later {first : TokenPath × Token} {rest : List (TokenPath × Token)}
      (h : ∃ entry ∈ rest, resolved.2.layer = entry.2.layer) :
      ∃ entry ∈ first :: rest, resolved.2.layer = entry.2.layer := by
    obtain ⟨entry, hentry, hlayer⟩ := h
    exact ⟨entry, List.mem_cons_of_mem _ hentry, hlayer⟩
  fun_induction resolveEntries collect tree mode pass entries with
  | case1 => cases h
  | case2 pass path token rest found after hfound more ih =>
    rcases List.mem_cons.mp h with rfl | hrest
    · exact ⟨(path, token), List.mem_cons_self, rfl⟩
    · exact later (ih hrest)
  | case3 pass path token rest after hreported ih => exact later (ih h)
  | case4 pass path token rest e after herror hcollect more ih => exact later (ih h)
  | case5 pass path token rest e after herror hcollect => cases h

namespace Build

variable {config : Config} {detailed : Bool} {cache : ResolutionCache} {layers : List Layer}
  {modes : List String}

/-- Every resolved tree comes from a composed one, by way of some cache. -/
theorem exists_resolve_of_mem_resolveAll {composed : List (String × TokenTree)}
    {resolved : String × ResolvedTree}
    (h : resolved ∈ (resolveAll true detailed cache composed).resolved) :
    ∃ entry ∈ composed, ∃ known : ResolutionCache,
      resolved = (entry.1, (known.resolve true entry.2 entry.1).1.resolved) := by
  induction composed generalizing cache with
  | nil => cases h
  | cons entry rest ih =>
    obtain ⟨mode, tree⟩ := entry
    rw [resolveAll] at h
    simp only at h
    split at h
    · cases h
    · rcases List.mem_cons.mp h with rfl | hrest
      · exact ⟨(mode, tree), List.mem_cons_self, cache, rfl⟩
      · obtain ⟨other, hother, known, heq⟩ := ih hrest
        exact ⟨other, List.mem_cons_of_mem _ hother, known, heq⟩

/-- Unless resolving breaks down, all modes are resolved, in the order given. -/
theorem keys_resolved_resolveAll {composed : List (String × TokenTree)}
    (h : Cascade.WithinDigits composed) :
    OrderedMap.keys (resolveAll true detailed cache composed).resolved =
      OrderedMap.keys composed := by
  induction composed generalizing cache with
  | nil => rfl
  | cons entry rest ih =>
    obtain ⟨mode, tree⟩ := entry
    obtain ⟨htree, hlater⟩ := List.forall_mem_cons.mp h
    have hstopped : (cache.resolve true tree mode).1.stopped = none :=
      ResolutionCache.stopped_resolve_true (tree.isRenderable_iff.mpr htree) cache mode
    have hrest : OrderedMap.keys
        (resolveAll true detailed (cache.resolve true tree mode).2 rest).resolved =
          OrderedMap.keys rest := ih hlater
    unfold OrderedMap.keys at hrest ⊢
    rw [resolveAll]
    simp only [hstopped, List.map_cons, hrest]

theorem keys_gathering (hmodes : modes.Nodup)
    (hstopped : (gathering detailed cache layers modes).stopped = none) :
    OrderedMap.keys (gathering detailed cache layers modes).resolved = modes := by
  unfold gathering
  rw [keys_resolved_resolveAll (stopped_gathering_eq_none_iff.mp hstopped),
    Cascade.composeAll_of_nodup layers hmodes]
  simp [OrderedMap.keys, Function.comp_def]

/-- A resolved token carries the name of a loaded layer. -/
theorem exists_layer_of_mem_gathering
    (hlayers : ∀ layer ∈ layers, ∃ source ∈ config.layers, layer.ComesFrom source)
    {resolved : String × ResolvedTree}
    (hresolved : resolved ∈ (gathering detailed cache layers modes).resolved)
    {entry : TokenPath × ResolvedToken} (hentry : entry ∈ resolved.2) :
    ∃ layer ∈ layers, entry.2.layer = layer.name := by
  obtain ⟨composed, hcomposed, known, rfl⟩ := exists_resolve_of_mem_resolveAll hresolved
  obtain ⟨mode, _, rfl⟩ := Cascade.exists_mode_of_mem_composeAll hcomposed
  obtain ⟨⟨path, token⟩, htoken, hlayer⟩ := Resolution.exists_layer_of_mem_resolved
    (ResolutionCache.mem_resolved_passOver hentry)
  have hwinner := OrderedMap.get?_eq_some_of_mem (Cascade.nodup_keys_compose layers mode) htoken
  rw [Cascade.get?_compose] at hwinner
  obtain ⟨layer, hwins, hmem⟩ := Cascade.exists_winningLayer?_of_winner? hwinner
  exact ⟨layer, Cascade.mem_layers_of_winningLayer? hwins,
    hlayer.trans (layer_of_winner? hlayers hwins hmem)⟩

/-- Every placed token has the group of a layer of the settings. -/
theorem groupOf_mem_of_mem_placementTree (hvalid : config.Valid)
    (hlayers : ∀ layer ∈ layers, ∃ source ∈ config.layers, layer.ComesFrom source)
    {entry : TokenPath × ResolvedToken}
    (h : entry ∈ Css.placementTree config (gathering detailed cache layers modes).resolved) :
    Css.groupOf config entry.2.layer ∈ config.groups := by
  rcases Css.placementTree_cases config (gathering detailed cache layers modes).resolved with
    hnone | ⟨mode, hmem⟩
  · rw [hnone] at h
    cases h
  · obtain ⟨layer, hlayer, hname⟩ := exists_layer_of_mem_gathering hlayers hmem h
    obtain ⟨source, hsource, hcomes⟩ := hlayers layer hlayer
    rw [hname, hcomes.groupOf_eq hvalid hsource, hcomes.group]
    exact List.mem_eraseDups.mpr (List.mem_map_of_mem hsource)

/-- No path stands in the placement tree twice. -/
theorem nodup_keys_placementTree (herrors : (gathering detailed cache layers modes).errors = []) :
    (OrderedMap.keys (Css.placementTree config
      (gathering detailed cache layers modes).resolved)).Nodup := by
  rcases Css.placementTree_cases config (gathering detailed cache layers modes).resolved with
    hnone | ⟨mode, hmem⟩
  · rw [hnone]
    exact .nil
  · obtain ⟨tree, htree, hkeys⟩ := keys_resolveAll herrors _ hmem
    obtain ⟨mode', _, heq⟩ := Cascade.exists_mode_of_mem_composeAll htree
    rw [Prod.mk.injEq] at heq
    rw [hkeys, heq.2]
    exact Cascade.nodup_keys_compose layers mode'

/-! ## Counting -/

/-- The sum of all sheets' counts for one mode. -/
theorem modeCounts_eq {trees : Css.ResolvedModes} (hmodes : modes.Nodup)
    (hbuilt : Css.builtModes config trees = modes) :
    Css.modeCounts config trees = modes.map fun mode =>
      (mode, ((Css.emittedPaths config trees).map fun sheet => sheet.2.length).sum) := by
  unfold Css.modeCounts
  simp only [hbuilt]
  rw [OrderedMap.ofPairs_of_nodup (by simpa [Function.comp_def] using hmodes), List.sum_eq_foldr]

variable {declare : String → TokenPath → Css.Declaration}

/-- Over all sheets, a mode has one declaration for each placed path. -/
theorem flatMap_declaredIn_ofPaths (hmodes : modes.Nodup) {mode : String} (hmode : mode ∈ modes)
    (placed : List (String × List TokenPath)) :
    (placed.map (Css.Sheet.ofPaths modes declare)).flatMap (·.declaredIn mode) =
      (placed.flatMap (·.2)).map (declare mode) := by
  rw [List.flatMap_map, List.map_flatMap]
  exact List.flatMap_congr fun members _ => Css.Sheet.declaredIn_ofPaths hmodes hmode members

/-- All counts of declarations come to the same. -/
theorem sum_counts_ofPaths (placed : List (String × List TokenPath)) :
    ((placed.map (Css.Sheet.ofPaths modes declare)).map (·.count)).sum =
      modes.length * (placed.map fun members => members.2.length).sum := by
  rw [List.map_map, ← List.sum_map_mul_left]
  refine congrArg List.sum (List.map_congr_left fun members _ => ?_)
  exact Nat.mul_comm _ _

theorem length_declared_ofPaths (placed : List (String × List TokenPath)) :
    ((placed.map (Css.Sheet.ofPaths modes declare)).flatMap Css.Sheet.declared).length =
      ((placed.map (Css.Sheet.ofPaths modes declare)).map (·.count)).sum := by
  rw [List.length_flatMap, List.map_map, List.map_map]
  exact congrArg List.sum
    (List.map_congr_left fun members _ => Css.Sheet.length_declared_ofPaths members)

end Build

/-! ## What a report counts -/

namespace Build

variable {task : Task} {progress : Progress} {planned : Planned}

/-- What a report tells of the planned files and of their declarations. -/
structure Counted (config : Config) (planned : Planned) (report : Report) : Prop where
  modeCounts : report.modeCounts = Css.modeCounts config planned.resolved
  totalVariables : report.totalVariables = (report.modeCounts.map (·.2)).sum
  filesPlanned : report.filesPlanned = planned.files.map (·.path)

theorem counted_planning (h : (planning task progress).outcome = .ok planned) :
    Counted task.config planned (planning task progress).progress.report := by
  obtain ⟨modes, hmodes, _⟩ := planning_eq_ok_iff.mp h
  have hformats : (planning task progress).Formats := .inl ⟨planned, h⟩
  obtain ⟨formerly, resolved, identifiers, hformatting⟩ := hformats.exists_formatting hmodes
  rw [hformatting] at h ⊢
  unfold formatting at h ⊢
  cases hfiles : Css.files task.config resolved identifiers with
  | error failure =>
    rw [hfiles] at h
    cases h
  | ok files =>
    rw [hfiles] at h
    rw [← Except.ok.inj h]
    exact ⟨rfl, rfl, rfl⟩

/-- Writing counts nothing anew. -/
theorem Counted.writing {config : Config} (h : Counted config planned progress.report)
    (houtcome : (writing task progress planned).outcome = .ok planned) :
    Counted config planned (writing task progress planned).progress.report := by
  unfold Build.writing at houtcome ⊢
  split at houtcome
  · rename_i hdry
    rw [if_pos hdry]
    exact ⟨h.modeCounts, h.totalVariables, h.filesPlanned⟩
  · rename_i hdry
    rw [if_neg hdry]
    simp only at houtcome ⊢
    split at houtcome
    · cases houtcome
    · cases houtcome
    · exact ⟨h.modeCounts, h.totalVariables, h.filesPlanned⟩

theorem Counted.settle {config : Config} {ending : Ending}
    (h : Counted config planned ending.progress.report) (houtcome : ending.outcome = .ok planned) :
    Counted config planned (settle ending).report := by
  unfold Build.settle
  rw [houtcome]
  exact ⟨h.modeCounts, h.totalVariables, h.filesPlanned⟩

end Build

namespace Pipeline

variable {refuses : Output.Refusals} {pipeline : Pipeline} {tree : FileTree}
  {options : BuildOptions} {result : BuildResult}

theorem counted_buildUnder (h : (pipeline.buildUnder refuses tree options).result = .ok result) :
    Build.Counted pipeline.config ⟨result.resolved, result.files⟩ result.report := by
  have hplan := plan_of_buildUnder_eq_ok h
  have hstages := Build.stages_of_planning_ok hplan
  have hcounted := Build.counted_planning hplan
  unfold buildUnder at h
  simp only at h
  cases houtcome : (Build.stages (pipeline.task refuses tree options)
      (pipeline.start options)).outcome with
  | error failure =>
    rw [houtcome] at h
    cases h
  | ok planned =>
    rw [houtcome] at h
    have hresult := Except.ok.inj h
    have hplanned : planned = ⟨result.resolved, result.files⟩ := by
      rw [← hresult]
    subst hplanned
    rw [← hresult]
    refine Build.Counted.settle ?_ houtcome
    rw [hstages] at houtcome ⊢
    exact hcounted.writing houtcome

end Pipeline

/-! ## Accounts -/

namespace Build

/-- The files of the sheets of a build. -/
def sheetFiles (result : BuildResult) : List OutputFile :=
  result.files.filter fun file => file.kind = .group

/-- The statistics of a build are those of its files.  `sheets` are the sheets among these. -/
structure Accounts (config : Config) (modes : List String) (dryRun : Bool) (result : BuildResult)
    (sheets : List Css.Sheet) : Prop where
  /-- The files are the sheets and the indexes. -/
  files : result.files = sheets.map (Css.Sheet.file config) ++
    Css.indexFiles config (sheets.map fun sheet => Css.sheetName sheet.group)
  /-- Every sheet has one block for each built mode, in order of emission, and all of its blocks
  declare the same paths. -/
  blocks : ∀ sheet ∈ sheets, ∃ paths : List TokenPath, sheet.blocks = modes.map fun mode =>
    (mode, paths.map (declareIn result.resolved mode))
  /-- No property is declared twice for a mode. -/
  names_nodup : ∀ mode ∈ modes,
    ((sheets.flatMap (·.declaredIn mode)).map (·.name)).Nodup
  /-- The built modes are counted, in order of emission, each with its declarations. -/
  modeCounts : result.report.modeCounts = modes.map fun mode =>
    (mode, (sheets.flatMap (·.declaredIn mode)).length)
  /-- In the text of every sheet, the head tells its count. -/
  heads : (sheetFiles result).map (fun file => Css.variablesIn? modes file.content) =
    sheets.map fun sheet => some sheet.count
  /-- The total is the sum of the counts of the modes, the number of all declarations, and the sum
  of the counts of the sheets. -/
  total_modes : result.report.totalVariables = (result.report.modeCounts.map (·.2)).sum
  total_declared : result.report.totalVariables = (sheets.flatMap Css.Sheet.declared).length
  total_heads : result.report.totalVariables = (sheets.map (·.count)).sum
  /-- The index of the theme, which lies beside the sheets, imports these. -/
  imports : ∃ index ∈ result.files, index.path = config.theme ++ "/" ++ Css.indexName ∧
    Css.importsIn index.content = sheets.map fun sheet => "./" ++ Css.sheetName sheet.group
  /-- The groups stand in the order in which the layers name them first. -/
  groups : ∀ sheet ∈ sheets, sheet.group ∈ config.layers.map (·.group)
  groups_order : (sheets.map (·.group)).Pairwise fun first second =>
    (config.layers.map (·.group)).idxOf first < (config.layers.map (·.group)).idxOf second
  /-- All files are planned, each once. -/
  planned : result.report.filesPlanned = result.files.map (·.path)
  planned_nodup : result.report.filesPlanned.Nodup
  /-- A normal run has either written a file or left it alone. -/
  split : dryRun = false →
    (result.report.filesWritten ++ result.report.filesUnchanged).Perm result.report.filesPlanned ∧
      result.report.filesWritten.Disjoint result.report.filesUnchanged

/-- In the texts of the sheets, every block is read back as what it declares. -/
def BlocksReadBack (config : Config) (modes : List String) (result : BuildResult)
    (sheets : List Css.Sheet) : Prop :=
  (sheetFiles result).map (fun file => Css.blocksIn? config modes file.content) =
    sheets.map fun sheet => some (sheet.blocks.map (·.2))

variable {config : Config} {asked : Option (List String)} {modes : List String}
  {layers : List Layer} {detailed : Bool} {cache : ResolutionCache} {planned : Planned}
  {result : BuildResult}

/-- Resolved trees that can be accounted for: one for each built mode, with sheets in the order of the
groups, and in each mode with a name of its own for every placed path. -/
structure Arranged (config : Config) (modes : List String) (trees : Css.ResolvedModes) : Prop where
  keys : OrderedMap.keys trees = modes
  groups : ((Css.emittedPaths config trees).map (·.1)).Sublist config.groups
  names : ∀ mode ∈ modes,
    ((emittedPaths config trees).map fun path => (declareIn trees mode path).name).Nodup

theorem arranged_of_plan (hvalid : config.Valid) (hmodes : selectModes config asked = .ok modes)
    (hlayers : ∀ layer ∈ layers, ∃ source ∈ config.layers, layer.ComesFrom source)
    (hfindings : findings config detailed cache layers modes = [])
    (hplan : plan config detailed cache layers modes = .ok planned) :
    Arranged config modes planned.resolved := by
  obtain ⟨hstopped, hresolved, hfiles⟩ := plan_eq_ok_iff.mp hplan
  obtain ⟨_, herrors, hcollisions⟩ := findings_eq_nil hstopped hfindings
  have hkeys : OrderedMap.keys planned.resolved = modes := by
    rw [hresolved]
    exact keys_gathering (nodup_of_selectModes hvalid hmodes) hstopped
  have hplacement : (OrderedMap.keys (Css.placementTree config
      (gathering detailed cache layers modes).resolved)).Nodup := nodup_keys_placementTree herrors
  unfold claiming at hcollisions hfiles
  refine ⟨hkeys, ?_, fun mode hmode => ?_⟩
  · rw [hresolved, Css.emittedPaths_eq fun entry hentry _ =>
      groupOf_mem_of_mem_placementTree hvalid hlayers hentry]
    have hsublist := (List.filter_sublist (p := fun sheet : String × List TokenPath =>
      !sheet.2.isEmpty) (l := config.groups.map fun group => (group, Css.members config
        (Css.placementTree config (gathering detailed cache layers modes).resolved) group))).map
        Prod.fst
    simpa [Function.comp_def] using hsublist
  · rw [← hresolved] at hcollisions hfiles hplacement
    have hnames : ∀ path ∈ emittedPaths config planned.resolved,
        (declareIn planned.resolved mode path).name = Identifier.ofPath path := by
      intro path hpath
      rw [← builtModes_eq hmodes hkeys] at hmode
      obtain ⟨_, _, _, _, hdeclared⟩ :=
        exists_declaration_of_files_eq_ok hcollisions hfiles hmode hpath
      rw [hdeclared]
    rw [List.map_congr_left hnames]
    exact (Css.nodup_placed hplacement).map_on fun path hpath other hother heq =>
      Claims.eq_of_ofPath_eq hcollisions hpath hother heq

/-- The sheets of resolved trees. -/
def sheetsOf (config : Config) (modes : List String) (trees : Css.ResolvedModes) : List Css.Sheet :=
  (Css.emittedPaths config trees).map (Css.Sheet.ofPaths modes (declareIn trees))

/-- The group of a sheet stands on one line. -/
theorem not_mem_group_of_mem_sheetsOf (hsafe : config.FileSafe) {trees : Css.ResolvedModes}
    {sheet : Css.Sheet} (h : sheet ∈ sheetsOf config modes trees) : '\n' ∉ sheet.group.toList := by
  obtain ⟨members, hmembers, rfl⟩ := List.mem_map.mp h
  exact Field.not_mem_of_isFileSafe (Css.isFileSafe_of_mem_emittedPaths hsafe members hmembers)
    (by decide)

/-- A sheet has one block for each mode. -/
theorem names_of_mem_sheetsOf {trees : Css.ResolvedModes} {sheet : Css.Sheet}
    (h : sheet ∈ sheetsOf config modes trees) : sheet.blocks.map (·.1) = modes := by
  obtain ⟨members, _, rfl⟩ := List.mem_map.mp h
  simp [Css.Sheet.ofPaths, Function.comp_def]

/-- What the blocks of all sheets declare are the declarations of the build. -/
theorem mem_declared_of_mem_sheetsOf {trees : Css.ResolvedModes} {sheet : Css.Sheet}
    (h : sheet ∈ sheetsOf config (Css.builtModes config trees) trees) {d : Css.Declaration}
    (hd : d ∈ sheet.declared) : d ∈ declared config trees := by
  obtain ⟨members, hmembers, rfl⟩ := List.mem_map.mp h
  unfold Css.Sheet.declared Css.Sheet.ofPaths at hd
  rw [List.flatMap_map] at hd
  exact List.mem_flatMap.mpr ⟨members, hmembers, hd⟩

/-- The sheets are told from the indexes by their kind. -/
theorem sheetFiles_eq {sheets : List Css.Sheet}
    (hfiles : result.files = sheets.map (Css.Sheet.file config) ++
      Css.indexFiles config (sheets.map fun sheet => Css.sheetName sheet.group)) :
    sheetFiles result = sheets.map (Css.Sheet.file config) := by
  have hsheets : (sheets.map (Css.Sheet.file config)).filter (fun file => file.kind = .group) =
      sheets.map (Css.Sheet.file config) := by
    rw [List.filter_eq_self, List.forall_mem_map]
    exact fun sheet _ => rfl
  unfold sheetFiles
  rw [hfiles, List.filter_append, hsheets]
  exact List.append_nil _

/-- Every head tells the count of its sheet. -/
theorem heads_of_files (hsafe : config.FileSafe) {trees : Css.ResolvedModes}
    {sheets : List Css.Sheet} (hsheets : sheets = sheetsOf config modes trees)
    (hfiles : result.files = sheets.map (Css.Sheet.file config) ++
      Css.indexFiles config (sheets.map fun sheet => Css.sheetName sheet.group)) :
    (sheetFiles result).map (fun file => Css.variablesIn? modes file.content) =
      sheets.map fun sheet => some sheet.count := by
  have htheme : '\n' ∉ config.theme.toList := Field.not_mem_of_isFileSafe hsafe.theme (by decide)
  rw [sheetFiles_eq hfiles, List.map_map]
  refine List.map_congr_left fun sheet hsheet => ?_
  rw [hsheets] at hsheet
  have hread := Css.Sheet.variablesIn?_file htheme (not_mem_group_of_mem_sheetsOf hsafe hsheet)
  rwa [names_of_mem_sheetsOf hsheet] at hread

/-- Blocks of contained declarations are read back. -/
theorem blocksReadBack_of_files (hsafe : config.FileSafe) {sheets : List Css.Sheet}
    (hsheets : sheets = sheetsOf config (Css.builtModes config result.resolved) result.resolved)
    (hfiles : result.files = sheets.map (Css.Sheet.file config) ++
      Css.indexFiles config (sheets.map fun sheet => Css.sheetName sheet.group))
    (hcontained : ∀ d ∈ declared config result.resolved, d.Contained) :
    BlocksReadBack config (Css.builtModes config result.resolved) result sheets := by
  have htheme : '\n' ∉ config.theme.toList := Field.not_mem_of_isFileSafe hsafe.theme (by decide)
  unfold BlocksReadBack
  rw [sheetFiles_eq hfiles, List.map_map]
  refine List.map_congr_left fun sheet hsheet => ?_
  rw [hsheets] at hsheet
  have hread := Css.Sheet.blocksIn?_file htheme (not_mem_group_of_mem_sheetsOf hsafe hsheet)
    fun d hd => hcontained d (mem_declared_of_mem_sheetsOf hsheet hd)
  rwa [names_of_mem_sheetsOf hsheet] at hread

/-- The index of the theme imports the sheets. -/
theorem exists_index_of_files (hsafe : config.FileSafe) {trees : Css.ResolvedModes}
    {files : List OutputFile} {sheets : List Css.Sheet} (hsheets : sheets = sheetsOf config modes trees)
    (hfiles : files = sheets.map (Css.Sheet.file config) ++
      Css.indexFiles config (sheets.map fun sheet => Css.sheetName sheet.group)) :
    ∃ index ∈ files, index.path = config.theme ++ "/" ++ Css.indexName ∧
      Css.importsIn index.content = sheets.map fun sheet => "./" ++ Css.sheetName sheet.group := by
  have htheme : '\n' ∉ config.theme.toList := Field.not_mem_of_isFileSafe hsafe.theme (by decide)
  have htitle : '\n' ∉ (config.theme ++ "/" ++ Css.indexName).toList := by
    simp [Css.indexName, htheme]
  have htargets : ∀ target ∈ sheets.map fun sheet => "./" ++ Css.sheetName sheet.group,
      '\n' ∉ target.toList := by
    intro target htarget
    obtain ⟨sheet, hsheet, rfl⟩ := List.mem_map.mp htarget
    rw [hsheets] at hsheet
    simp [Css.sheetName, not_mem_group_of_mem_sheetsOf hsafe hsheet]
  have hread := Css.importsIn_index htitle htargets
  rw [List.map_map] at hread
  refine ⟨_, hfiles ▸ List.mem_append_right _ List.mem_cons_self, rfl, ?_⟩
  rw [List.map_map]
  exact hread

/-- Files that show arranged trees are what a report that counts them tells. -/
theorem Arranged.accounts {dryRun : Bool} (hsafe : config.FileSafe)
    (hmodes : selectModes config asked = .ok modes) (hnodup : modes.Nodup)
    (h : Arranged config modes result.resolved)
    (hfiles : result.files = Css.filesOf config (Css.builtModes config result.resolved)
      (declareIn result.resolved) (Css.emittedPaths config result.resolved))
    (hcounted : Counted config ⟨result.resolved, result.files⟩ result.report)
    (hplanned : result.report.filesPlanned.Nodup)
    (hsplit : dryRun = false → (result.report.filesWritten ++ result.report.filesUnchanged).Perm
      result.report.filesPlanned) :
    Accounts config modes dryRun result (sheetsOf config modes result.resolved) := by
  have hbuilt := builtModes_eq hmodes h.keys
  have hcounts := hcounted.modeCounts
  rw [hbuilt, Css.filesOf_eq] at hfiles
  rw [modeCounts_eq hnodup hbuilt] at hcounts
  have htotal : result.report.totalVariables = modes.length *
      ((Css.emittedPaths config result.resolved).map fun sheet => sheet.2.length).sum := by
    rw [hcounted.totalVariables, hcounts]
    simp [Function.comp_def]
  have hdeclared {mode : String} (hmode : mode ∈ modes) :
      (sheetsOf config modes result.resolved).flatMap (·.declaredIn mode) =
        (emittedPaths config result.resolved).map (declareIn result.resolved mode) :=
    flatMap_declaredIn_ofPaths hnodup hmode _
  have hgroups : ((sheetsOf config modes result.resolved).map (·.group)).Sublist config.groups := by
    unfold sheetsOf
    rw [List.map_map]
    exact h.groups
  refine
    { files := hfiles
      blocks := fun sheet hsheet => ?_
      names_nodup := fun mode hmode => ?_
      modeCounts := hcounts.trans (List.map_congr_left fun mode hmode => ?_)
      heads := heads_of_files hsafe rfl hfiles
      total_modes := hcounted.totalVariables
      total_declared := ?_
      total_heads := htotal.trans (sum_counts_ofPaths _).symm
      imports := exists_index_of_files hsafe rfl hfiles
      groups := fun sheet hsheet => ?_
      groups_order := (Lists.pairwise_idxOf_eraseDups _).sublist hgroups
      planned := hcounted.filesPlanned
      planned_nodup := hplanned
      split := fun hnormal => ⟨hsplit hnormal, ?_⟩ }
  · obtain ⟨members, _, rfl⟩ := List.mem_map.mp hsheet
    exact ⟨members.2, rfl⟩
  · rw [hdeclared hmode, List.map_map]
    exact h.names mode hmode
  · rw [hdeclared hmode, List.length_map, emittedPaths, List.length_flatMap]
  · exact htotal.trans ((sum_counts_ofPaths _).symm.trans (length_declared_ofPaths _).symm)
  · exact List.mem_eraseDups.mp (hgroups.subset (List.mem_map_of_mem hsheet))
  · exact List.disjoint_of_nodup_append ((hsplit hnormal).nodup_iff.mpr hplanned)

end Build

namespace Pipeline

variable {refuses : Output.Refusals} {pipeline : Pipeline} {tree : FileTree}
  {options : BuildOptions} {result : BuildResult}

/-- A normal build tells the planned files apart by whether it has written them. -/
theorem perm_of_buildUnder (hnormal : options.dryRun = false)
    (h : (pipeline.buildUnder refuses tree options).result = .ok result) :
    (result.report.filesWritten ++ result.report.filesUnchanged).Perm
      result.report.filesPlanned := by
  obtain ⟨written, hwritten⟩ := exists_written_of_buildUnder hnormal h
  obtain ⟨⟨report, hreport, htells⟩, _⟩ :=
    buildUnder_of_written hnormal (plan_of_buildUnder_eq_ok h) hwritten
  rw [Except.ok.inj (h.symm.trans hreport)]
  rw [htells.written, htells.unchanged, htells.planned]
  exact Output.perm_of_writeUnder hwritten

/-- The paths of planned files are distinct. -/
theorem nodup_paths_of_plan {planned : Build.Planned} (hvalid : pipeline.config.Valid)
    (hsafe : pipeline.config.FileSafe)
    (h : pipeline.plan refuses tree options = .ok planned) :
    (planned.files.map (·.path)).Nodup := by
  have hplaces := Build.nodup_targets_of_planning hvalid hsafe h tree
    (pipeline.outputDir options)
  refine List.Nodup.of_map (fun path =>
    tree.normalize ((pipeline.outputDir options).join (Path.ofString path))) ?_
  rw [List.map_map]
  exact hplaces

/-- Whatever a pipeline has done before, the statistics of a build that succeeds are those of the
files that it has produced.  If its cache is one that calls can leave, also the blocks of the files
are read back. -/
theorem build_accounts_for_files (refuses : Output.Refusals) (pipeline : Pipeline)
    (tree : FileTree) (options : BuildOptions) (result : BuildResult)
    (hvalid : pipeline.config.Valid) (hsafe : pipeline.config.FileSafe)
    (h : (pipeline.buildUnder refuses tree options).result = .ok result) :
    ∃ modes sheets, Build.selectModes pipeline.config options.modes = .ok modes ∧
      OrderedMap.keys result.resolved = modes ∧
      Build.Accounts pipeline.config modes options.dryRun result sheets ∧
      (pipeline.cache.Served → Build.BlocksReadBack pipeline.config modes result sheets) := by
  have hplan := plan_of_buildUnder_eq_ok h
  have hcounted := counted_buildUnder h
  obtain ⟨modes, hmodes, _, _, hfindings, hplanned⟩ := Build.planning_eq_ok_iff.mp hplan
  have harranged := Build.arranged_of_plan hvalid hmodes
    (fun layer hlayer => Store.exists_source_of_mem_layers hlayer) hfindings hplanned
  have hnodup : result.report.filesPlanned.Nodup := by
    rw [hcounted.filesPlanned]
    exact nodup_paths_of_plan hvalid hsafe hplan
  have haccounts := harranged.accounts hsafe hmodes (Build.nodup_of_selectModes hvalid hmodes)
    (Build.files_of_planning hplan) hcounted hnodup fun hnormal => perm_of_buildUnder hnormal h
  refine ⟨modes, _, hmodes, harranged.keys, haccounts, fun hcache => ?_⟩
  have hfiles := haccounts.files
  rw [← Build.builtModes_eq hmodes harranged.keys] at hfiles ⊢
  exact Build.blocksReadBack_of_files hsafe rfl hfiles (contained_of_buildUnder hcache h)

/-- One component in two modes: a sheet with two declarations, and two indexes, all of them
written. -/
theorem build_accounts_for_twoPalettes :
    Config.twoPalettes.Valid ∧ Config.twoPalettes.FileSafe ∧ ∃ result modes sheets,
      ((new .twoPalettes .empty false).buildUnder Output.noRefusals ⟨[], [], 1⟩ .plain).result =
        .ok result ∧
      Build.selectModes .twoPalettes none = .ok modes ∧
      OrderedMap.keys result.resolved = modes ∧
      Build.Accounts .twoPalettes modes false result sheets ∧
      Build.BlocksReadBack .twoPalettes modes result sheets ∧
      result.report.modeCounts = [("light", 1), ("dark", 1)] ∧
      result.report.totalVariables = 2 ∧
      result.report.filesWritten = ["brand/component.css", "brand/index.css", "index.css"] := by
  have hsafe : Config.twoPalettes.FileSafe := ⟨by decide, by decide⟩
  obtain ⟨result, hresult, htells⟩ : ∃ result,
      ((new .twoPalettes .empty false).buildUnder Output.noRefusals ⟨[], [], 1⟩ .plain).result =
        .ok result ∧
      decide (result.report.modeCounts = [("light", 1), ("dark", 1)] ∧
        result.report.totalVariables = 2 ∧
        result.report.filesWritten =
          ["brand/component.css", "brand/index.css", "index.css"]) = true :=
    exists_of_any (by decide +kernel)
  obtain ⟨modes, sheets, hmodes, hkeys, haccounts, hread⟩ :=
    build_accounts_for_files Output.noRefusals (new .twoPalettes .empty false) ⟨[], [], 1⟩ .plain
      result Config.valid_twoPalettes hsafe hresult
  exact ⟨Config.valid_twoPalettes, hsafe, result, modes, sheets, hresult, hmodes, hkeys, haccounts,
    hread .empty, of_decide_eq_true htells⟩

end Pipeline

end DesignTokens
