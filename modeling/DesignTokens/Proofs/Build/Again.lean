import DesignTokens.Proofs.Build.Breakdown
import DesignTokens.Proofs.Build.Replan
import DesignTokens.Proofs.Build.Sheets
import DesignTokens.Proofs.Css.Targets
import DesignTokens.Proofs.Output.Again
/-!
# Building again

A build that has succeeded can be repeated: if the documents are set apart from what it has written,
the same pipeline finds everything as it left it, and writes nothing.
-/

set_option autoImplicit false

namespace DesignTokens

namespace Build

variable {task : Task} {progress : Progress} {planned : Planned} {written : Output.Written}

/-! ## Planned files -/

/-- The planned files are those of the resolved trees. -/
theorem files_of_planning (h : (planning task progress).outcome = .ok planned) :
    planned.files = Css.filesOf task.config (Css.builtModes task.config planned.resolved)
      (declareIn planned.resolved) (Css.emittedPaths task.config planned.resolved) := by
  obtain ⟨modes, _, _, _, hfindings, hplan⟩ := planning_eq_ok_iff.mp h
  obtain ⟨hgathered, hresolved, hfiles⟩ := plan_eq_ok_iff.mp hplan
  have hcollisions := (findings_eq_nil hgathered hfindings).2.2
  unfold claiming at hcollisions hfiles
  rw [← hresolved] at hcollisions hfiles
  exact files_eq_of_files_eq_ok hcollisions hfiles

theorem noReturn_declareIn (trees : Css.ResolvedModes) (mode : String) (path : TokenPath) :
    Text.NoReturn (declareIn trees mode path).name ∧
      Text.NoReturn (declareIn trees mode path).value := by
  unfold declareIn
  split
  · exact ⟨Css.noReturn_ofPath path, Css.noReturn_renderValue _ _⟩
  · decide

/-- No planned file has a carriage return if no mode and no import has one. -/
theorem noReturn_of_planning (hvalid : task.config.Valid) (hsafe : task.config.FileSafe)
    (hmodes : ∀ mode ∈ task.config.modes, Text.NoReturn mode)
    (himports : ∀ target ∈ task.config.indexImports, Text.NoReturn target)
    (h : (planning task progress).outcome = .ok planned) :
    ∀ file ∈ planned.files, Text.NoReturn file.content := by
  have hplain : Css.Plain task.config (Css.builtModes task.config planned.resolved)
      (declareIn planned.resolved) (Css.emittedPaths task.config planned.resolved) := by
    refine ⟨Css.noReturn_of_isFileSafe hsafe.theme, fun mode hmode => ?_, himports,
      fun sheet hsheet => ?_, noReturn_declareIn _⟩
    · exact hmodes mode (hvalid.mem_orderedModes.mp (List.mem_of_mem_filter hmode))
    · exact Css.noReturn_of_isFileSafe (Css.isFileSafe_of_mem_emittedPaths hsafe sheet hsheet)
  intro file hfile
  rw [files_of_planning h] at hfile
  exact hplain.noReturn_filesOf hfile

/-- The planned files have places of their own. -/
theorem nodup_targets_of_planning (hvalid : task.config.Valid) (hsafe : task.config.FileSafe)
    (h : (planning task progress).outcome = .ok planned) (tree : FileTree) (directory : Path) :
    (planned.files.map fun file =>
      tree.normalize (Output.targetOf directory file)).Nodup := by
  rw [files_of_planning h]
  exact Css.nodup_targets_filesOf tree directory hsafe.theme
    (Css.isFileSafe_of_mem_emittedPaths hsafe) (Css.nodup_keys_emittedPaths _ _)
    (Css.index_not_mem_emittedPaths hvalid)

/-! ## Written files -/

/-- A report tells which files were planned, and which of them were written. -/
structure Tells (report : Report) (files : List OutputFile) (result : Output.Written) : Prop where
  planned : report.filesPlanned = files.map (·.path)
  written : report.filesWritten = result.written
  unchanged : report.filesUnchanged = result.unchanged

/-- What a normal build comes to once its files are written. -/
theorem writing_of_written (hnormal : task.options.dryRun = false)
    (hplanned : progress.report.filesPlanned = planned.files.map (·.path))
    (h : (Output.writeUnder task.refuses task.tree task.outputDir planned.files).outcome =
      .ok written) :
    (writing task progress planned).outcome = .ok planned ∧
      (writing task progress planned).tree =
        (Output.writeUnder task.refuses task.tree task.outputDir planned.files).tree ∧
      Tells (writing task progress planned).progress.report planned.files written := by
  unfold writing
  rw [hnormal, if_neg Bool.false_ne_true]
  simp only [h, true_and]
  exact ⟨hplanned, rfl, rfl⟩

/-- A normal build that succeeds has written its files. -/
theorem exists_written_of_writing (hnormal : task.options.dryRun = false) {planned' : Planned}
    (h : (writing task progress planned).outcome = .ok planned') :
    ∃ written, (Output.writeUnder task.refuses task.tree task.outputDir planned.files).outcome =
      .ok written := by
  unfold writing at h
  rw [hnormal, if_neg Bool.false_ne_true] at h
  simp only at h
  cases houtcome :
      (Output.writeUnder task.refuses task.tree task.outputDir planned.files).outcome with
  | ok written => exact ⟨written, rfl⟩
  | error fault =>
    rw [houtcome] at h
    cases fault <;> cases h

/-- Settling a report does not change what it tells of the files. -/
theorem Tells.settle {ending : Ending} {files : List OutputFile}
    (h : Tells ending.progress.report files written) (houtcome : ending.outcome = .ok planned) :
    Tells (settle ending).report files written := by
  unfold Build.settle
  rw [houtcome]
  exact ⟨h.planned, h.written, h.unchanged⟩

end Build

/-! ## The whole run -/

namespace Pipeline

variable {refuses : Output.Refusals} {pipeline : Pipeline} {tree : FileTree}
  {options : BuildOptions} {planned : Build.Planned} {result : BuildResult}
  {written : Output.Written}

/-- Where a build of a pipeline writes. -/
def outputDir (pipeline : Pipeline) (options : BuildOptions) : Path :=
  options.outputDir.getD pipeline.config.outputDir

/-- What a normal build yields once its files are planned and written. -/
theorem buildUnder_of_written (hnormal : options.dryRun = false)
    (hplan : pipeline.plan refuses tree options = .ok planned)
    (hwritten : (Output.writeUnder refuses tree (pipeline.outputDir options)
      planned.files).outcome = .ok written) :
    (∃ report, (pipeline.buildUnder refuses tree options).result =
        .ok ⟨report, planned.resolved, planned.files⟩ ∧
        Build.Tells report planned.files written) ∧
      (pipeline.buildUnder refuses tree options).tree =
        (Output.writeUnder refuses tree (pipeline.outputDir options) planned.files).tree := by
  obtain ⟨modes, hmodes, _⟩ := Build.planning_eq_ok_iff.mp hplan
  have hleaves := Build.leaves_planning hplan hmodes
  have hnormal' : (pipeline.task refuses tree options).options.dryRun = false := hnormal
  have hending := Build.writing_of_written hnormal' hleaves.filesPlanned hwritten
  rw [← Build.stages_of_planning_ok hplan] at hending
  obtain ⟨houtcome, htree, htells⟩ := hending
  refine ⟨⟨_, ?_, htells.settle houtcome⟩, htree⟩
  unfold buildUnder
  simp only [houtcome]
  rfl

/-- A normal build that succeeds has written its files. -/
theorem exists_written_of_buildUnder (hnormal : options.dryRun = false)
    (h : (pipeline.buildUnder refuses tree options).result = .ok result) :
    ∃ written, (Output.writeUnder refuses tree (pipeline.outputDir options)
      result.files).outcome = .ok written := by
  have hstages := Build.stages_of_planning_ok (plan_of_buildUnder_eq_ok h)
  cases houtcome : (Build.stages (pipeline.task refuses tree options)
      (pipeline.start options)).outcome with
  | error failure =>
    rw [result_buildUnder_eq_error_iff.mpr houtcome] at h
    cases h
  | ok planned =>
    rw [hstages] at houtcome
    exact Build.exists_written_of_writing hnormal houtcome

/-- Where a normal build has succeeded, and no document has a place among its files or was touched by
writing them, the same pipeline can repeat the build with the same result.  It writes nothing and
reports all files as unchanged; it leaves the tree, its documents and its terminals as they are, and
has counted nothing but a hit for every token of every built mode. -/
theorem build_again (hvalid : pipeline.config.Valid) (hsafe : pipeline.config.FileSafe)
    (hmodes : ∀ mode ∈ pipeline.config.modes, Text.NoReturn mode)
    (himports : ∀ target ∈ pipeline.config.indexImports, Text.NoReturn target)
    (hnormal : options.dryRun = false) (hstands : tree.Stands)
    (h : (pipeline.buildUnder refuses tree options).result = .ok result)
    (hdocuments : ∀ source ∈ pipeline.config.layers,
      ∀ path ∈ source.documentPath? pipeline.store.dataDir,
        Output.SetApart tree (pipeline.buildUnder refuses tree options).tree
          (pipeline.outputDir options) result.files path) (refuses' : Output.Refusals) :
    let first := pipeline.buildUnder refuses tree options
    let again := first.pipeline.buildUnder refuses' first.tree options
    ∃ repeated, again.result = .ok repeated ∧
      repeated.resolved = result.resolved ∧ repeated.files = result.files ∧
      repeated.report.filesWritten = [] ∧
      repeated.report.filesUnchanged = result.report.filesPlanned ∧
      again.tree = first.tree ∧
      again.pipeline.store = first.pipeline.store ∧
      again.pipeline.cache = { first.pipeline.cache with
        hits := first.pipeline.cache.hits + Build.tokenCount result.resolved } := by
  intro first again
  have hplan := plan_of_buildUnder_eq_ok h
  -- What the first run has written is current, and has left the documents alone.
  obtain ⟨written, hwritten⟩ := exists_written_of_buildUnder hnormal h
  obtain ⟨⟨report, hreport, htells⟩, htree⟩ := buildUnder_of_written hnormal hplan hwritten
  have hdistinct : (result.files.map fun file =>
      tree.normalize (Output.targetOf (pipeline.outputDir options) file)).Nodup :=
    Build.nodup_targets_of_planning hvalid hsafe hplan tree _
  have hplain : ∀ file ∈ result.files, Text.NoReturn file.content :=
    Build.noReturn_of_planning hvalid hsafe hmodes himports hplan
  obtain ⟨hcurrent, hsame⟩ := Output.writeUnder_again hstands hdistinct hplain hwritten refuses'
  obtain ⟨_, hwrote⟩ := Output.wrote_of_writeUnder hstands hdistinct hwritten
  rw [← htree] at hcurrent hsame hwrote
  -- So the second run plans the same files from what the first one has kept, and finds them there.
  have hkeeps := Build.keeps_settle_stages (pipeline.task refuses tree options)
    (pipeline.start options)
  have hkept : (first.pipeline.start options).store =
      (Build.planning (pipeline.task refuses tree options) (pipeline.start options)).progress.store :=
    hkeeps.store
  obtain ⟨hplanned, hstore, hcache, _⟩ := Build.planning_again hplan hkept hkeeps.cache
    (fun source hsource path hpath => hwrote.untouched (hdocuments source hsource path hpath))
    refuses'
  have hplanAgain : first.pipeline.plan refuses' first.tree options =
      .ok ⟨result.resolved, result.files⟩ := hplanned
  obtain ⟨⟨report', hreport', htells'⟩, htree'⟩ :=
    buildUnder_of_written hnormal hplanAgain hcurrent
  have hkeeps' := Build.keeps_settle_stages (first.pipeline.task refuses' first.tree options)
    (first.pipeline.start options)
  refine ⟨_, hreport', rfl, rfl, htells'.written, ?_, htree'.trans hsame, ?_, ?_⟩
  · rw [Except.ok.inj (h.symm.trans hreport)]
    exact htells'.unchanged.trans htells.planned.symm
  · exact hkeeps'.store.trans hstore
  · exact hkeeps'.cache.trans hcache

end Pipeline

/-! ## A document beside the output -/

/-- Settings with an optional document for one of two modes, whose path leads through the output
directory and out of it again. -/
def Config.besideOutput : Config :=
  { theme := "brand"
    dataDir := ⟨.root, ["tokens"]⟩
    outputDir := ⟨.root, ["out"]⟩
    modes := ["light", "dark"]
    defaultMode := "light"
    layers := [
      { name := "base", source := some "base.json", data := none
        mode := none, group := "tokens", emit := true, skippable := false },
      { name := "night", source := some "../out/../night.json", data := none
        mode := some "dark", group := "tokens", emit := true, skippable := true }]
    indexImports := []
    minify := false }

theorem Config.valid_besideOutput : Config.besideOutput.Valid where
  modes_nodup := by decide
  modes_not_blank := by decide
  default_mem := by decide
  names_nodup := by decide
  origins := by
    unfold LayerSource.HasOrigin
    decide
  layer_modes := by decide
  index_free := by decide

theorem Config.fileSafe_besideOutput : Config.besideOutput.FileSafe where
  theme := by decide
  groups := by decide

namespace FileTree

/-- A tree with the document of the first layer and some other entries. -/
def withSize (others : OrderedMap Location Entry) : FileTree :=
  { entries := (["tokens"], .directory 0) ::
      (["tokens", "base.json"], .file "\x7b\"size\": \x7b\"value\": 4\x7d\x7d".toUTF8 0) :: others
    workingDirectory := []
    clock := 1 }

/-- A tree with the documents of both layers. -/
def withGap : FileTree :=
  withSize [(["night.json"], .file "\x7b\"gap\": \x7b\"value\": 8\x7d\x7d".toUTF8 0)]

theorem stands_withSize (others : OrderedMap Location Entry) : (withSize others).Stands := by
  intro above habove
  rw [List.prefix_nil.mp habove]
  exact standing?_root _

end FileTree

theorem exists_of_any {α : Type} {outcome : Except Failure α} {holds : α → Bool}
    (h : outcome.toOption.any holds = true) : ∃ value, outcome = .ok value ∧ holds value = true := by
  cases outcome with
  | error failure => cases h
  | ok value => exact ⟨value, rfl, h⟩

namespace Pipeline

/-- A build that finds the first document alone. -/
def sizeBuild : Answer BuildResult :=
  (new .besideOutput .empty false).build (.withSize []) .plain

/-- A build of the same settings, where the other document is there as well. -/
def gapBuild : Answer BuildResult :=
  (new .besideOutput .empty false).build .withGap .plain

/-- The second run finds the first document where it was, and the other one missing as before. -/
theorem build_again_withSize :
    ∃ result repeated, sizeBuild.result = .ok result ∧
      (sizeBuild.pipeline.build sizeBuild.tree .plain).result = .ok repeated ∧
      repeated.report.filesWritten = [] ∧
      repeated.report.filesUnchanged = result.report.filesPlanned ∧
      (sizeBuild.pipeline.build sizeBuild.tree .plain).tree = sizeBuild.tree := by
  have hfound : sizeBuild.result.toOption.any (fun result =>
      decide (∀ source ∈ Config.besideOutput.layers,
        ∀ path ∈ source.documentPath? Config.besideOutput.dataDir,
          (∀ file ∈ result.files, (FileTree.withSize []).normalize path ≠
            (FileTree.withSize []).normalize
              (Output.targetOf Config.besideOutput.outputDir file)) ∧
          ((FileTree.withSize []).hasFile path = false →
            sizeBuild.tree.findEntry path = (FileTree.withSize []).findEntry path ∧
            sizeBuild.tree.changedAt? path = (FileTree.withSize []).changedAt? path))) = true := by
    decide +kernel
  obtain ⟨result, hresult, hpaths⟩ := exists_of_any hfound
  obtain ⟨repeated, hrepeated, _, _, hwritten, hunchanged, htree, _⟩ :=
    build_again Config.valid_besideOutput Config.fileSafe_besideOutput (by decide) (by decide) rfl
      (FileTree.stands_withSize []) hresult (fun source hsource path hpath => by
        obtain ⟨hplace, habsent⟩ := of_decide_eq_true hpaths source hsource path hpath
        refine ⟨hplace, fun hnone => ?_⟩
        obtain ⟨hfound, hchanged⟩ := habsent hnone
        exact ⟨hfound, hchanged⟩)
      Output.noRefusals
  exact ⟨result, repeated, hresult, hrepeated, hwritten, hunchanged, htree⟩

/-- A document that lies at the place of no output file is found by the second run only, as the
first one has made the directory that its path leads through.  It gives one mode a token that the
other lacks, so that the second run fails. -/
theorem build_again_fails_withGap :
    (∃ result, gapBuild.result = .ok result ∧ ∀ source ∈ Config.besideOutput.layers,
        ∀ path ∈ source.documentPath? Config.besideOutput.dataDir, ∀ file ∈ result.files,
          FileTree.withGap.normalize path ≠ FileTree.withGap.normalize
            (Output.targetOf Config.besideOutput.outputDir file)) ∧
      (∀ mode ∈ Config.besideOutput.modes, Text.NoReturn mode) ∧
      (∀ target ∈ Config.besideOutput.indexImports, Text.NoReturn target) ∧
      (gapBuild.pipeline.build gapBuild.tree .plain).result.isOk = false := by
  have hfirst : gapBuild.result.toOption.any (fun result =>
      decide (∀ source ∈ Config.besideOutput.layers,
        ∀ path ∈ source.documentPath? Config.besideOutput.dataDir, ∀ file ∈ result.files,
          FileTree.withGap.normalize path ≠ FileTree.withGap.normalize
            (Output.targetOf Config.besideOutput.outputDir file))) = true := by
    decide +kernel
  obtain ⟨result, hresult, hplaces⟩ := exists_of_any hfirst
  exact ⟨⟨result, hresult, of_decide_eq_true hplaces⟩, by decide, by decide, by decide +kernel⟩

end Pipeline

end DesignTokens
