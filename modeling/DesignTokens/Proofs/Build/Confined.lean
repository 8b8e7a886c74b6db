import DesignTokens.Proofs.Build.DryRun
import DesignTokens.Proofs.Build.Statistics
/-!
# Where the files of a build can lie

Settings are checked in several places: the theme and the groups one by one, as stems of file names,
the modes and the layers against each other, and the name of the index against all groups.  Together
these checks keep the files of a build apart from each other and below the output directory, whichever
reader has accepted the settings.
-/

set_option autoImplicit false

namespace DesignTokens

/-! ## Accepted settings -/

/-- Settings that a reader has accepted: given as data, in a file, or by the metadata of a data
directory. -/
inductive Config.Accepted : Config → Prop where
  | settings (given : Datum) (base : Option Path) {config : Config}
      (h : ofSettings given base = .ok config) : Accepted config
  | file (tree : FileTree) (path : Path) {config : Config} (h : ofFile tree path = .ok config) :
      Accepted config
  | metadata (tree : FileTree) (dataDir : Path) (outputDir : Option Path) (theme : Option String)
      {config : Config} (h : Metadata.config tree dataDir outputDir theme = .ok config) :
      Accepted config

/-- The modes and the layers of settings agree with each other. -/
structure Config.Coherent (config : Config) : Prop where
  default_mem : config.defaultMode ∈ config.modes
  /-- The modes in order of emission are those given: the default mode, then the others in the order
  in which they are given. -/
  ordered_perm : config.orderedModes.Perm config.modes
  ordered_head : config.orderedModes.head? = some config.defaultMode
  ordered_rest : config.orderedModes.tail.Sublist config.modes
  names_nodup : (config.layers.map (·.name)).Nodup
  layer_modes : ∀ layer ∈ config.layers, ∀ mode ∈ layer.mode, mode ∈ config.modes

namespace Config

variable {config : Config}

theorem Accepted.ofSoundDraft (h : config.Accepted) : config.OfSoundDraft := by
  cases h with
  | settings given base h => exact ofSoundDraft_of_ofSettings h
  | file tree path h => exact ofSoundDraft_of_ofFile h
  | metadata tree dataDir outputDir theme h => exact ofSoundDraft_of_metadata h

theorem Valid.coherent (h : config.Valid) : config.Coherent where
  default_mem := h.default_mem
  ordered_perm := (List.perm_ext_iff_of_nodup h.nodup_orderedModes h.modes_nodup).mpr
    fun _ => h.mem_orderedModes
  ordered_head := rfl
  ordered_rest := List.filter_sublist
  names_nodup := h.names_nodup
  layer_modes := h.layer_modes

end Config

/-! ## Names and places -/

/-- A name that means the same in every directory: some letters, digits, underscores and hyphens,
and nothing else. -/
def Css.IsPlainName (name : String) : Prop :=
  name ≠ "" ∧ ∀ c ∈ name.toList, c.isAlphanum = true ∨ c = '_' ∨ c = '-'

theorem Css.isPlainName_of_isFileSafe {name : String} (h : Field.isFileSafe name = true) :
    IsPlainName name := by
  obtain ⟨hne, hchars⟩ := Field.isFileSafe_iff.mp h
  refine ⟨hne, ?_⟩
  intro c hc
  have hsafe := hchars c hc
  unfold isIdentifierChar at hsafe
  rw [Bool.or_eq_true, Bool.or_eq_true, beq_iff_eq, beq_iff_eq, or_assoc] at hsafe
  exact hsafe

/-- The paths of the files of a build: one sheet for each of some groups of the settings, then the
index of the theme and the index at the root.  No path is there twice. -/
structure Css.Laid (config : Config) (groups paths : List String) : Prop where
  order : paths = groups.map (fun group => config.theme ++ "/" ++ (group ++ ".css")) ++
    [config.theme ++ "/index.css", "index.css"]
  nodup : paths.Nodup
  configured : groups.Sublist config.groups
  index_free : "index" ∉ groups
  theme_plain : IsPlainName config.theme
  groups_plain : ∀ group ∈ groups, IsPlainName group

/-- Files have places of their own below a directory, and what is elsewhere is left as it is. -/
structure Output.Confined (tree after : FileTree) (directory : Path) (files : List OutputFile) :
    Prop where
  below : ∀ file ∈ files, ∃ names, names ≠ [] ∧
    tree.normalize (targetOf directory file) = tree.normalize directory ++ names
  places_nodup : (files.map fun file => tree.normalize (targetOf directory file)).Nodup
  elsewhere : tree.Stands → ∀ location, ¬ tree.normalize directory <+: location →
    after.fileAt? location = tree.fileAt? location

namespace Pipeline

variable {refuses : Output.Refusals} {pipeline : Pipeline} {tree : FileTree}
  {options : BuildOptions} {result : BuildResult}

/-- The paths of the planned files. -/
theorem laid_of_plan {planned : Build.Planned} (hvalid : pipeline.config.Valid)
    (hsafe : pipeline.config.FileSafe) (h : pipeline.plan refuses tree options = .ok planned) :
    Css.Laid pipeline.config ((Css.emittedPaths pipeline.config planned.resolved).map (·.1))
      (planned.files.map (·.path)) := by
  obtain ⟨modes, hmodes, _, _, hfindings, hplanned⟩ := Build.planning_eq_ok_iff.mp h
  have harranged := Build.arranged_of_plan hvalid hmodes
    (fun layer hlayer => Store.exists_source_of_mem_layers hlayer) hfindings hplanned
  constructor
  case order =>
    rw [Build.files_of_planning h, Css.paths_filesOf, List.map_map]
    exact congrArg (_ ++ [·, _]) String.append_assoc
  case nodup => exact nodup_paths_of_plan hvalid hsafe h
  case configured => exact harranged.groups
  case index_free => exact Css.index_not_mem_emittedPaths hvalid
  case theme_plain => exact Css.isPlainName_of_isFileSafe hsafe.theme
  case groups_plain =>
    intro group hgroup
    obtain ⟨sheet, hsheet, rfl⟩ := List.mem_map.mp hgroup
    exact Css.isPlainName_of_isFileSafe (Css.isFileSafe_of_mem_emittedPaths hsafe sheet hsheet)

/-- Files that a build does not plan stay as they are. -/
theorem fileAt?_buildUnder (hvalid : pipeline.config.Valid) (hsafe : pipeline.config.FileSafe)
    (h : (pipeline.buildUnder refuses tree options).result = .ok result) (hstands : tree.Stands)
    {location : Location} (hother : ∀ file ∈ result.files,
      tree.normalize (Output.targetOf (pipeline.outputDir options) file) ≠ location) :
    (pipeline.buildUnder refuses tree options).tree.fileAt? location = tree.fileAt? location := by
  have hplan := plan_of_buildUnder_eq_ok h
  cases hdry : options.dryRun with
  | true => rw [tree_of_dry_run hdry]
  | false =>
    obtain ⟨written, hwritten⟩ := exists_written_of_buildUnder hdry h
    rw [(buildUnder_of_written hdry hplan hwritten).2]
    have hplaces : (result.files.map fun file =>
        tree.normalize (Output.targetOf (pipeline.outputDir options) file)).Nodup :=
      Build.nodup_targets_of_planning hvalid hsafe hplan tree _
    obtain ⟨_, hwrote⟩ := Output.wrote_of_writeUnder hstands hplaces hwritten
    apply FileTree.fileAt?_of_datedFile?
    exact hwrote.others location fun file hfile _ => hother file hfile

theorem confined_buildUnder (hvalid : pipeline.config.Valid) (hsafe : pipeline.config.FileSafe)
    (h : (pipeline.buildUnder refuses tree options).result = .ok result) :
    Output.Confined tree (pipeline.buildUnder refuses tree options).tree
      (pipeline.outputDir options) result.files := by
  have hplan := plan_of_buildUnder_eq_ok h
  have hbelow : ∀ file ∈ result.files, ∃ names, names ≠ [] ∧
      tree.normalize (Output.targetOf (pipeline.outputDir options) file) =
        tree.normalize (pipeline.outputDir options) ++ names := by
    have hfiles := Build.files_of_planning hplan
    simp only at hfiles
    rw [hfiles]
    intro file hfile
    exact Css.exists_below_of_mem_filesOf tree _ hsafe.theme
      (Css.isFileSafe_of_mem_emittedPaths hsafe) hfile
  refine ⟨hbelow, Build.nodup_targets_of_planning hvalid hsafe hplan tree _, ?_⟩
  intro hstands location houtside
  apply fileAt?_buildUnder hvalid hsafe h hstands
  intro file hfile hplace
  obtain ⟨names, _, hnames⟩ := hbelow file hfile
  exact houtside ⟨names, hnames.symm.trans hplace⟩

/-- Accepted settings agree with themselves, and no build of them that succeeds, whatever the pipeline
has done before, plans a path twice, puts two files into one place, or reaches a file outside of the
output directory. -/
theorem accepted_builds_are_confined (config : Config) (haccepted : config.Accepted) :
    config.Coherent ∧
      ∀ (refuses : Output.Refusals) (pipeline : Pipeline) (tree : FileTree)
        (options : BuildOptions) (result : BuildResult), pipeline.config = config →
        (pipeline.buildUnder refuses tree options).result = .ok result →
        result.report.filesPlanned = result.files.map (·.path) ∧
        (∃ groups, Css.Laid config groups result.report.filesPlanned) ∧
        Output.Confined tree (pipeline.buildUnder refuses tree options).tree
          (pipeline.outputDir options) result.files := by
  have hvalid := haccepted.ofSoundDraft.valid
  have hsafe := haccepted.ofSoundDraft.fileSafe
  refine ⟨hvalid.coherent, ?_⟩
  intro refuses pipeline tree options result hconfig h
  subst hconfig
  have hplanned := (counted_buildUnder h).filesPlanned
  have hlaid := laid_of_plan hvalid hsafe (plan_of_buildUnder_eq_ok h)
  rw [← hplanned] at hlaid
  exact ⟨hplanned, ⟨_, hlaid⟩, confined_buildUnder hvalid hsafe h⟩

end Pipeline

/-- Settings as a caller gives them: a width in two modes, the second of which is the default one. -/
def Datum.givenWidth : Datum :=
  .map [
    (.str "theme", .str "brand"),
    (.str "modes", .list [.str "light", .str "dark"]),
    (.str "default_mode", .str "dark"),
    (.str "layers", .list [
      .map [
        (.str "name", .str "base"),
        (.str "group", .str "component"),
        (.str "data", .map [(.str "width", .map [(.str "value", .str "4px")])])]])]

namespace Pipeline

/-- Three files, all of them below the output directory. -/
theorem givenWidth_build_is_confined :
    ∃ config result, Config.ofSettings .givenWidth none = .ok config ∧
      config.orderedModes = ["dark", "light"] ∧ config.Coherent ∧
      ((new config .empty false).buildUnder Output.noRefusals ⟨[], [], 1⟩ .plain).result =
        .ok result ∧
      result.report.filesPlanned = ["brand/component.css", "brand/index.css", "index.css"] ∧
      (∃ groups, Css.Laid config groups result.report.filesPlanned) ∧
      Output.Confined ⟨[], [], 1⟩
        ((new config .empty false).buildUnder Output.noRefusals ⟨[], [], 1⟩ .plain).tree
        config.outputDir result.files := by
  obtain ⟨config, hconfig, hmodes⟩ : ∃ config, Config.ofSettings .givenWidth none = .ok config ∧
      decide (config.orderedModes = ["dark", "light"]) = true :=
    exists_of_any (by decide +kernel)
  have hbuilds : (Config.ofSettings .givenWidth none).toOption.any (fun config =>
      ((new config .empty false).buildUnder Output.noRefusals ⟨[], [], 1⟩
        .plain).result.toOption.any fun result => decide (result.report.filesPlanned =
          ["brand/component.css", "brand/index.css", "index.css"])) = true := by
    decide +kernel
  obtain ⟨_, hsame, hbuilt⟩ := exists_of_any hbuilds
  cases Except.ok.inj (hconfig.symm.trans hsame)
  obtain ⟨result, hresult, hplanned⟩ := exists_of_any hbuilt
  obtain ⟨hcoherent, hconfined⟩ :=
    accepted_builds_are_confined config (.settings .givenWidth none hconfig)
  obtain ⟨_, hlaid, hbelow⟩ :=
    hconfined Output.noRefusals (new config .empty false) ⟨[], [], 1⟩ .plain result rfl hresult
  exact ⟨config, result, hconfig, of_decide_eq_true hmodes, hcoherent, hresult,
    of_decide_eq_true hplanned, hlaid, hbelow⟩

end Pipeline

end DesignTokens
