import DesignTokens.Output
import DesignTokens.Proofs.Config.Valid
import DesignTokens.Proofs.Css.Sheet
import DesignTokens.Proofs.Text.Words
/-!
# Where style sheets go

No two files of a build have one place below the output directory: the sheets have the names of
their groups, which are distinct and none of them that of the index, and the index at the root lies
above them all.
-/

set_option autoImplicit false

namespace DesignTokens

/-! ## Paths of files -/

namespace Css

/-- The name of a sheet is no step within the tree. -/
theorem sheetName_ne {name group : String} (hname : name.toList.length < 4) :
    sheetName group ≠ name := by
  intro heq
  have hlength := congrArg (fun s => s.toList.length) heq
  have hsuffix : ".css".toList.length = 4 := by decide
  simp only [sheetName, String.toList_append, List.length_append, hsuffix] at hlength
  omega

theorem sheetName_inj {group other : String} (h : sheetName group = sheetName other) :
    group = other := by
  have hlists := congrArg String.toList h
  unfold sheetName at hlists
  rw [String.toList_append, String.toList_append, List.append_left_inj] at hlists
  exact String.toList_inj.mp hlists

/-- The path of a sheet below the output directory. -/
theorem ofString_sheet {theme group : String} (htheme : Field.isFileSafe theme = true)
    (hgroup : Field.isFileSafe group = true) :
    Path.ofString (theme ++ "/" ++ sheetName group) = ⟨.here, [theme, sheetName group]⟩ := by
  have hslash : '/' ∉ theme.toList := Field.not_mem_of_isFileSafe htheme (by decide)
  have hslash' : '/' ∉ (sheetName group).toList := by
    unfold sheetName
    rw [String.toList_append, List.mem_append, not_or]
    exact ⟨Field.not_mem_of_isFileSafe hgroup (by decide), by decide⟩
  have hlist : (theme ++ "/" ++ sheetName group).toList =
      theme.toList ++ '/' :: (sheetName group).toList := by
    simp [String.toList_append]
  have hdot : theme ≠ "." := by
    rintro rfl
    revert htheme
    decide
  have hne : theme ≠ "" := (Field.isFileSafe_iff.mp htheme).1
  have hanchor : Path.anchorOf (theme.toList ++ '/' :: (sheetName group).toList) = .here := by
    cases htext : theme.toList with
    | nil => exact absurd (String.toList_eq_nil_iff.mp htext) hne
    | cons c rest =>
      rw [htext, List.mem_cons, not_or] at hslash
      rw [List.cons_append]
      unfold Path.anchorOf
      split
      · rename_i heq
        exact absurd (List.cons.inj heq).1.symm hslash.1
      · rename_i heq
        exact absurd (List.cons.inj heq).1.symm hslash.1
      · rename_i heq
        exact absurd (List.cons.inj heq).1.symm hslash.1
      · rfl
  unfold Path.ofString
  simp only
  rw [hlist, hanchor, Text.splitAtChar_append_cons hslash, Text.splitAtChar_of_not_mem hslash']
  simp only [List.map_cons, List.map_nil, String.ofList_toList]
  refine congrArg (Path.mk .here) (List.filter_eq_self.mpr fun name hname => decide_eq_true ?_)
  simp only [List.mem_cons, List.not_mem_nil, or_false] at hname
  rcases hname with rfl | rfl
  · exact ⟨hne, hdot⟩
  · exact ⟨sheetName_ne (by decide), sheetName_ne (by decide)⟩

end Css

/-- Names of their own lead on from the place of a directory. -/
theorem FileTree.normalize_join {tree : FileTree} {directory : Path} {names : List String}
    (h : ".." ∉ names) :
    tree.normalize (directory.join ⟨.here, names⟩) = tree.normalize directory ++ names := by
  have hfold (start : Location) : names.foldl (fun location name =>
      if name = ".." then location.dropLast else location ++ [name]) start = start ++ names := by
    induction names generalizing start with
    | nil => exact (List.append_nil start).symm
    | cons name rest ih =>
      rw [List.mem_cons, not_or] at h
      rw [List.foldl_cons, if_neg (Ne.symm h.1), ih h.2, List.append_assoc,
        List.singleton_append]
  have hjoin : directory.join ⟨.here, names⟩ = ⟨directory.anchor, directory.names ++ names⟩ := rfl
  have habsolute : Path.isAbsolute ⟨directory.anchor, directory.names ++ names⟩ =
      directory.isAbsolute := rfl
  unfold normalize
  rw [hjoin, habsolute]
  simp only
  rw [List.foldl_append, hfold]

namespace Css

variable {config : Config} {trees : ResolvedModes} {modes : List String}
  {declare : String → TokenPath → Declaration} {sheets : List (String × List TokenPath)}

/-! ## Groups with a sheet -/

/-- A group with a sheet is that of a layer, unless no layer has the name that a token tells. -/
theorem group_of_mem_emittedPaths {group : String} {paths : List TokenPath}
    (h : (group, paths) ∈ emittedPaths config trees) :
    group = "tokens" ∨ ∃ layer ∈ config.layers, group = layer.group := by
  obtain ⟨hne, hpaths⟩ := mem_emittedPaths_iff.mp h
  cases hmembers : paths with
  | nil => exact absurd hmembers hne
  | cons path rest =>
    have hmem : path ∈ members config (placementTree config trees) group := by
      rw [← hpaths, hmembers]
      exact List.mem_cons_self
    obtain ⟨token, _, _, rfl⟩ := mem_members_iff.mp hmem
    unfold groupOf
    cases hlayer : layerNamed? config token.layer with
    | none => exact .inl rfl
    | some source =>
      exact .inr ⟨source, List.mem_reverse.mp (List.mem_of_find?_eq_some hlayer), rfl⟩

theorem isFileSafe_of_mem_emittedPaths (hsafe : config.FileSafe) :
    ∀ sheet ∈ emittedPaths config trees, Field.isFileSafe sheet.1 = true := by
  rintro ⟨group, paths⟩ hsheet
  obtain rfl | ⟨layer, hlayer, rfl⟩ := group_of_mem_emittedPaths hsheet
  · show Field.isFileSafe "tokens" = true
    decide
  · exact hsafe.groups layer hlayer

theorem index_not_mem_emittedPaths (hvalid : config.Valid) :
    "index" ∉ (emittedPaths config trees).map (·.1) := by
  intro hmem
  obtain ⟨⟨group, paths⟩, hsheet, hgroup⟩ := List.mem_map.mp hmem
  obtain htokens | ⟨layer, hlayer, hlast⟩ := group_of_mem_emittedPaths hsheet
  · exact absurd (htokens.symm.trans hgroup) (by decide)
  · exact hvalid.index_free (List.mem_map.mpr ⟨layer, hlayer, hlast.symm.trans hgroup⟩)

/-! ## Places of files -/

/-- Every sheet lies in the directory of the theme, with the index of the theme, and the index at the
root lies beside that directory. -/
theorem targets_filesOf (tree : FileTree) (directory : Path)
    (htheme : Field.isFileSafe config.theme = true)
    (hsafe : ∀ sheet ∈ sheets, Field.isFileSafe sheet.1 = true) :
    ((filesOf config modes declare sheets).map fun file =>
      tree.normalize (Output.targetOf directory file)) =
      sheets.map (fun sheet => tree.normalize directory ++ [config.theme, sheetName sheet.1]) ++
        [tree.normalize directory ++ [config.theme, indexName],
          tree.normalize directory ++ [indexName]] := by
  have hplace {group : String} (hgroup : Field.isFileSafe group = true) :
      tree.normalize (directory.join (Path.ofString (config.theme ++ "/" ++ sheetName group))) =
        tree.normalize directory ++ [config.theme, sheetName group] := by
    rw [ofString_sheet htheme hgroup]
    refine FileTree.normalize_join ?_
    simp only [List.mem_cons, List.not_mem_nil, or_false, not_or]
    refine ⟨?_, (sheetName_ne (by decide)).symm⟩
    rintro heq
    rw [← heq] at htheme
    revert htheme
    decide
  have hroot : tree.normalize (directory.join (Path.ofString indexName)) =
      tree.normalize directory ++ [indexName] :=
    FileTree.normalize_join (by decide)
  have hindexes : indexName = sheetName "index" := by decide
  have hpaths : (filesOf config modes declare sheets).map (·.path) = _ := paths_filesOf
  have hplaces := congrArg (List.map fun path =>
    tree.normalize (directory.join (Path.ofString path))) hpaths
  rw [List.map_map] at hplaces
  refine hplaces.trans ?_
  rw [List.map_append, List.map_map, List.map_cons, List.map_singleton, hroot, hindexes,
    hplace (by decide)]
  refine congrArg (· ++ _) (List.map_congr_left fun sheet hsheet => ?_)
  exact hplace (hsafe sheet hsheet)

/-- The files of sheets lie at places of their own, if the sheets have distinct names that can be
stems of file names and are not that of the index. -/
theorem nodup_targets_filesOf (tree : FileTree) (directory : Path)
    (htheme : Field.isFileSafe config.theme = true)
    (hsafe : ∀ sheet ∈ sheets, Field.isFileSafe sheet.1 = true)
    (hnodup : (sheets.map (·.1)).Nodup) (hindex : "index" ∉ sheets.map (·.1)) :
    ((filesOf config modes declare sheets).map fun file =>
      tree.normalize (Output.targetOf directory file)).Nodup := by
  have hindexes : indexName = sheetName "index" := by decide
  rw [targets_filesOf tree directory htheme hsafe, List.nodup_append]
  refine ⟨?_, by simp, ?_⟩
  · have hlocations : (sheets.map fun sheet =>
        tree.normalize directory ++ [config.theme, sheetName sheet.1]) =
        (sheets.map (·.1)).map fun group =>
          tree.normalize directory ++ [config.theme, sheetName group] := by
      rw [List.map_map]
      rfl
    rw [hlocations]
    refine hnodup.map fun group other heq => sheetName_inj ?_
    simpa using heq
  · intro first hfirst second hsecond heq
    obtain ⟨sheet, hsheet, rfl⟩ := List.mem_map.mp hfirst
    simp only [List.mem_cons, List.not_mem_nil, or_false] at hsecond
    rcases hsecond with rfl | rfl
    · have hname : sheetName sheet.1 = indexName := by simpa using heq
      rw [hindexes] at hname
      exact hindex (List.mem_map.mpr ⟨sheet, hsheet, sheetName_inj hname⟩)
    · simp at heq

/-- No file lies at the directory itself or outside of it. -/
theorem exists_below_of_mem_filesOf (tree : FileTree) (directory : Path)
    (htheme : Field.isFileSafe config.theme = true)
    (hsafe : ∀ sheet ∈ sheets, Field.isFileSafe sheet.1 = true) {file : OutputFile}
    (hfile : file ∈ filesOf config modes declare sheets) :
    ∃ names, names ≠ [] ∧
      tree.normalize (Output.targetOf directory file) = tree.normalize directory ++ names := by
  have hplace : tree.normalize (Output.targetOf directory file) ∈
      (filesOf config modes declare sheets).map fun file =>
        tree.normalize (Output.targetOf directory file) :=
    List.mem_map_of_mem hfile
  rw [targets_filesOf tree directory htheme hsafe, List.mem_append, List.mem_map] at hplace
  rcases hplace with ⟨sheet, _, hsheet⟩ | hindex
  · exact ⟨_, List.cons_ne_nil _ _, hsheet.symm⟩
  · simp only [List.mem_cons, List.not_mem_nil, or_false] at hindex
    rcases hindex with htheme | hroot
    · exact ⟨_, List.cons_ne_nil _ _, htheme⟩
    · exact ⟨_, List.cons_ne_nil _ _, hroot⟩

end Css

end DesignTokens
