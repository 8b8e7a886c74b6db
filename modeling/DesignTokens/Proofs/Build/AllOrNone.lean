import DesignTokens.Proofs.Build.Findings
import DesignTokens.Proofs.FileTree.Names
import DesignTokens.Proofs.Output
/-!
# A failing run leaves the files as they were

All stages before the last work in memory, and writing is all or none; so a run that fails, at
whatever stage, leaves every file of the tree as it was.
-/

set_option autoImplicit false

namespace DesignTokens

/-- Every file of a build has the name of a style sheet. -/
theorem Css.exists_stem_of_mem_files {config : Config} {trees : Css.ResolvedModes}
    {identifiers : OrderedMap TokenPath String} {files : List OutputFile}
    (h : Css.files config trees identifiers = .ok files) {file : OutputFile} (hmem : file ∈ files) :
    ∃ stem, file.path = stem ++ sheetSuffix := by
  unfold Css.files at h
  simp only at h
  split at h
  · cases h
  · rename_i sheets hsheets
    rw [Except.ok.injEq] at h
    rw [← h] at hmem
    cases List.mem_append.mp hmem with
    | inl hsheet =>
      have hsheets := (Lists.mapM_eq_some_iff.mp hsheets).flip
      obtain ⟨group, _, hgroup⟩ := Lists.exists_right_of_forall₂ hsheets hsheet
      unfold Css.sheet? at hgroup
      simp only [Option.bind_eq_bind, Option.bind_eq_some_iff] at hgroup
      obtain ⟨blocks, _, hfile⟩ := hgroup
      refine ⟨config.theme ++ "/" ++ group.1, ?_⟩
      rw [← Option.some.inj hfile]
      simp [Css.sheetWith, Css.sheetName, sheetSuffix, String.append_assoc]
    | inr hindex =>
      unfold Css.indexFiles at hindex
      rcases List.mem_cons.mp hindex with rfl | hroot
      · exact ⟨config.theme ++ "/" ++ "index", by
          simp [Css.indexName, sheetSuffix, String.append_assoc]⟩
      · rw [List.mem_singleton.mp hroot]
        exact ⟨"index", by simp [Css.indexName, sheetSuffix]⟩

namespace Build

variable {task : Task} {progress : Progress}

/-- What a build plans to write are the files of style sheets. -/
theorem exists_files_of_planning {planned : Planned}
    (h : (planning task progress).outcome = .ok planned) :
    ∃ trees identifiers, Css.files task.config trees identifiers = .ok planned.files := by
  obtain ⟨modes, _, _, _, _, hplan⟩ := planning_eq_ok_iff.mp h
  obtain ⟨_, _, hfiles⟩ := plan_eq_ok_iff.mp hplan
  exact ⟨_, _, hfiles⟩

/-- A build that fails leaves every file as it was. -/
theorem fileAt?_stages_of_error {failure : Failure}
    (h : (stages task progress).outcome = .error failure) (location : Location) :
    (stages task progress).tree.fileAt? location = task.tree.fileAt? location := by
  unfold stages at h ⊢
  simp only at h ⊢
  cases hplan : (planning task progress).outcome with
  | error failure' => rfl
  | ok planned =>
    simp only [hplan] at h ⊢
    obtain ⟨trees, identifiers, hfiles⟩ := exists_files_of_planning hplan
    have hnames : ∀ file ∈ planned.files,
        FileTree.endsInName (Output.targetOf task.outputDir file) = true := by
      intro file hmem
      obtain ⟨stem, hstem⟩ := Css.exists_stem_of_mem_files hfiles hmem
      rw [Output.targetOf, hstem]
      exact Path.endsInName_join_suffix _ stem
    unfold writing at h ⊢
    by_cases hdry : task.options.dryRun
    · rw [if_pos hdry] at h
      cases h
    · rw [if_neg hdry] at h ⊢
      simp only at h ⊢
      cases hwritten :
        (Output.writeUnder task.refuses task.tree task.outputDir planned.files).outcome with
      | ok written => simp [hwritten] at h
      | error fault =>
        have hkept := Output.fileAt?_writeUnder_of_error hnames hwritten location
        cases fault <;> exact hkept

end Build

/-- A run that fails leaves every file as it was, at whatever stage it fails and whatever operation
the file system refuses at whatever file. -/
theorem Pipeline.fileAt?_of_failed_run {refuses : Output.Refusals} {pipeline : Pipeline}
    {tree : FileTree} {options : BuildOptions}
    (h : (pipeline.runUnder refuses tree options).result.isOk = false) (location : Location) :
    (pipeline.runUnder refuses tree options).tree.fileAt? location = tree.fileAt? location := by
  have houtcome : ∃ failure, (Build.stages (pipeline.task refuses tree options)
      (pipeline.start options)).outcome = .error failure := by
    unfold Pipeline.runUnder Pipeline.buildUnder at h
    simp only at h
    cases hstages : (Build.stages (pipeline.task refuses tree options)
        (pipeline.start options)).outcome with
    | ok planned => simp [hstages, Except.map, Except.isOk, Except.toBool] at h
    | error failure => exact ⟨failure, rfl⟩
  obtain ⟨failure, hfailure⟩ := houtcome
  exact Build.fileAt?_stages_of_error hfailure location

/-- Settings with one layer that defines one token. -/
def Config.oneSize : Config :=
  { theme := "brand"
    dataDir := ⟨.root, ["tokens"]⟩
    outputDir := ⟨.root, ["out"]⟩
    modes := ["light"]
    defaultMode := "light"
    layers := [
      { name := "base", source := none
        data := some [(.str "size", .map [(.str "value", .int 4)])]
        mode := none, group := "tokens", emit := true, skippable := false }]
    indexImports := []
    minify := false }

/-- A tree in which the index at the root of the output is there from before. -/
def FileTree.withOldIndex : FileTree :=
  { entries := [(["out"], .directory 0), (["out", "index.css"], .file "old".toUTF8 0)]
    workingDirectory := []
    clock := 1 }

/-- A file system without the space for one of three moves. -/
def Output.refusesMove (position : Nat) : Output.Refusals :=
  fun operation p => if operation = .replace ∧ p = position then some .noSpace else none

theorem Pipeline.files_after_refused_move :
    (((Pipeline.new .oneSize .empty false).runUnder (Output.refusesMove 2) .withOldIndex
        .plain).result.isOk = false) ∧
      ∀ location, ((Pipeline.new .oneSize .empty false).runUnder (Output.refusesMove 2)
        .withOldIndex .plain).tree.fileAt? location = FileTree.withOldIndex.fileAt? location :=
  have hfailed : ((Pipeline.new .oneSize .empty false).runUnder (Output.refusesMove 2)
      .withOldIndex .plain).result.isOk = false := by decide +kernel
  ⟨hfailed, fun location => Pipeline.fileAt?_of_failed_run hfailed location⟩

end DesignTokens
