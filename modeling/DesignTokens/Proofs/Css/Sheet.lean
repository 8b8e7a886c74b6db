import DesignTokens.Css.Sheet
import DesignTokens.Proofs.Lists
import DesignTokens.Proofs.OrderedMap
import Mathlib.Data.List.Nodup
/-!
# Where paths are placed

Every emitted path of the placement tree is placed once, in the sheet of its group, and the sheets
keep the order of the tree.  If every placed path has an identifier and a token in every mode, the
sheets can be written.
-/

set_option autoImplicit false

namespace DesignTokens.Css

variable {config : Config} {trees : ResolvedModes} {identifiers : OrderedMap TokenPath String}

/-! ## Placing -/

/-- The paths of a tree that are emitted into a group, in order. -/
def members (config : Config) (entries : ResolvedTree) (group : String) : List TokenPath :=
  (entries.filter fun entry =>
    isEmitted config entry.2.layer && groupOf config entry.2.layer == group).map (·.1)

theorem getD_place (groups : OrderedMap String (List TokenPath))
    (entry : TokenPath × ResolvedToken) (group : String) :
    (OrderedMap.get? (place config groups entry) group).getD [] =
      (OrderedMap.get? groups group).getD [] ++ members config [entry] group := by
  unfold place members
  by_cases hemitted : isEmitted config entry.2.layer
  · by_cases hgroup : groupOf config entry.2.layer = group
    · simp [hemitted, hgroup, OrderedMap.get?_set]
    · simp [hemitted, hgroup, OrderedMap.get?_set]
  · simp [hemitted]

theorem nodup_keys_place {groups : OrderedMap String (List TokenPath)}
    (h : (OrderedMap.keys groups).Nodup) (entry : TokenPath × ResolvedToken) :
    (OrderedMap.keys (place config groups entry)).Nodup := by
  unfold place
  simp only
  split
  · exact OrderedMap.nodup_keys_set h _ _
  · exact h

/-- Placing the entries of a tree appends to every group the paths that belong to it. -/
theorem getD_foldl_place (config : Config) (entries : ResolvedTree)
    (groups : OrderedMap String (List TokenPath)) (group : String) :
    (OrderedMap.get? (entries.foldl (place config) groups) group).getD [] =
      (OrderedMap.get? groups group).getD [] ++ members config entries group := by
  induction entries generalizing groups with
  | nil => simp [members]
  | cons entry rest ih =>
    rw [List.foldl_cons, ih, getD_place, List.append_assoc]
    congr 1
    unfold members
    rw [← List.map_append, ← List.filter_append, List.singleton_append]

theorem nodup_keys_foldl_place (config : Config) (entries : ResolvedTree)
    {groups : OrderedMap String (List TokenPath)} (h : (OrderedMap.keys groups).Nodup) :
    (OrderedMap.keys (entries.foldl (place config) groups)).Nodup := by
  induction entries generalizing groups with
  | nil => exact h
  | cons entry rest ih => exact ih (nodup_keys_place h entry)

/-- No group has a member before the first path is placed. -/
theorem getD_noMembers (config : Config) (group : String) :
    (OrderedMap.get? (OrderedMap.ofPairs (config.groups.map fun group => (group,
      ([] : List TokenPath)))) group).getD [] = [] := by
  rw [OrderedMap.get?_ofPairs]
  cases hfind : ((config.groups.map fun group => (group, ([] : List TokenPath))).reverse.find?
      fun pair => pair.1 = group) with
  | none => rfl
  | some pair =>
    have hmem := List.mem_reverse.mp (List.mem_of_find?_eq_some hfind)
    obtain ⟨other, _, rfl⟩ := List.mem_map.mp hmem
    rfl

/-- The groups that have a sheet are distinct. -/
theorem nodup_keys_emittedPaths (config : Config) (trees : ResolvedModes) :
    (OrderedMap.keys (emittedPaths config trees)).Nodup := by
  unfold emittedPaths
  simp only
  refine List.Nodup.sublist (List.Sublist.map _ List.filter_sublist) ?_
  exact nodup_keys_foldl_place config _ (OrderedMap.nodup_keys_ofPairs _)

/-- A group has a sheet exactly if some path of the placement tree is emitted into it; its paths are
those. -/
theorem mem_emittedPaths_iff {group : String} {paths : List TokenPath} :
    (group, paths) ∈ emittedPaths config trees ↔
      paths ≠ [] ∧ paths = members config (placementTree config trees) group := by
  have hplaced := getD_foldl_place config (placementTree config trees)
    (OrderedMap.ofPairs (config.groups.map fun group => (group, []))) group
  rw [getD_noMembers, List.nil_append] at hplaced
  have hnodup := nodup_keys_foldl_place config (placementTree config trees)
    (OrderedMap.nodup_keys_ofPairs (config.groups.map fun group => (group, [])))
  unfold emittedPaths
  simp only [List.mem_filter]
  constructor
  · rintro ⟨hmem, hpaths⟩
    rw [OrderedMap.get?_eq_some_of_mem hnodup hmem, Option.getD_some] at hplaced
    exact ⟨by simpa using hpaths, hplaced⟩
  · rintro ⟨hpaths, rfl⟩
    refine ⟨OrderedMap.mem_of_get?_eq_some ?_, by simpa using hpaths⟩
    cases hget : OrderedMap.get? ((placementTree config trees).foldl (place config)
        (OrderedMap.ofPairs (config.groups.map fun group => (group, [])))) group with
    | none =>
      rw [hget] at hplaced
      exact absurd hplaced.symm hpaths
    | some placed =>
      rw [hget, Option.getD_some] at hplaced
      rw [hplaced]

theorem mem_members_iff {entries : ResolvedTree} {group : String} {path : TokenPath} :
    path ∈ members config entries group ↔ ∃ token, (path, token) ∈ entries ∧
      isEmitted config token.layer = true ∧ groupOf config token.layer = group := by
  unfold members
  rw [List.mem_map]
  constructor
  · rintro ⟨⟨path', token⟩, hmem, rfl⟩
    obtain ⟨hentry, hplace⟩ := List.mem_filter.mp hmem
    simp only [Bool.and_eq_true, beq_iff_eq] at hplace
    exact ⟨token, hentry, hplace⟩
  · rintro ⟨token, hentry, hemitted, hgroup⟩
    exact ⟨(path, token), List.mem_filter.mpr ⟨hentry, by simp [hemitted, hgroup]⟩, rfl⟩

theorem members_sublist_keys (entries : ResolvedTree) (group : String) :
    (members config entries group).Sublist (OrderedMap.keys entries) :=
  List.filter_sublist.map _

/-- A path is placed once at most, over all sheets. -/
theorem nodup_placed (h : (OrderedMap.keys (placementTree config trees)).Nodup) :
    ((emittedPaths config trees).flatMap (·.2)).Nodup := by
  rw [List.nodup_flatMap]
  constructor
  · intro group hgroup
    rw [(mem_emittedPaths_iff.mp hgroup).2]
    exact h.sublist (members_sublist_keys _ _)
  · have hdistinct := List.pairwise_map.mp (nodup_keys_emittedPaths config trees)
    refine hdistinct.imp_of_mem ?_
    intro first second hfirst hsecond hne path hmem hmem'
    simp only at hmem hmem'
    rw [(mem_emittedPaths_iff.mp hfirst).2, mem_members_iff] at hmem
    rw [(mem_emittedPaths_iff.mp hsecond).2, mem_members_iff] at hmem'
    obtain ⟨token, hentry, _, hgroup⟩ := hmem
    obtain ⟨token', hentry', _, hgroup'⟩ := hmem'
    have heq := OrderedMap.get?_eq_some_of_mem h hentry
    rw [OrderedMap.get?_eq_some_of_mem h hentry', Option.some.injEq] at heq
    rw [heq, hgroup] at hgroup'
    exact hne hgroup'

/-- The tree that decides placement is the default mode's if that is built, and else the first
one. -/
theorem placementTree_eq (hfirst : config.defaultMode ∈ OrderedMap.keys trees →
      (OrderedMap.keys trees).head? = some config.defaultMode) :
    placementTree config trees =
      (OrderedMap.get? trees (if config.defaultMode ∈ OrderedMap.keys trees then
        config.defaultMode else (OrderedMap.keys trees).headD "")).getD [] := by
  cases trees with
  | nil => rfl
  | cons tree rest =>
    obtain ⟨mode, tree⟩ := tree
    unfold placementTree
    by_cases hdefault : config.defaultMode ∈ OrderedMap.keys ((mode, tree) :: rest)
    · have hmode : mode = config.defaultMode := Option.some.inj (hfirst hdefault)
      subst hmode
      rw [if_pos hdefault, OrderedMap.get?_cons, if_pos rfl]
      cases tree <;> rfl
    · rw [if_neg hdefault, (OrderedMap.get?_eq_none_iff _ _).mpr hdefault]
      change tree = (OrderedMap.get? ((mode, tree) :: rest) mode).getD []
      rw [OrderedMap.get?_cons, if_pos rfl, Option.getD_some]

/-- The placement tree is one of the trees, or empty. -/
theorem placementTree_cases (config : Config) (trees : ResolvedModes) :
    placementTree config trees = [] ∨ ∃ mode, (mode, placementTree config trees) ∈ trees := by
  unfold placementTree
  split
  · rename_i entry rest hget
    exact .inr ⟨_, OrderedMap.mem_of_get?_eq_some hget⟩
  · split
    · exact .inr ⟨_, List.mem_cons_self⟩
    · exact .inl rfl

/-- Which sheet a path goes to depends on the placement tree alone. -/
theorem emittedPaths_congr {trees' : ResolvedModes}
    (h : placementTree config trees = placementTree config trees') :
    emittedPaths config trees = emittedPaths config trees' := by
  unfold emittedPaths
  rw [h]

/-! ## Writing the sheets out -/

/-- The rule block of a mode, for paths that are declared as given. -/
def blockOf (config : Config) (declare : String → TokenPath → Declaration)
    (paths : List TokenPath) (mode : String) : String :=
  modeBlock config mode (paths.map (declare mode))

/-- The sheet of a group whose paths are declared, in every mode, as given: it has one rule block
per mode. -/
def sheetOf (config : Config) (modes : List String) (declare : String → TokenPath → Declaration)
    (group : String) (paths : List TokenPath) : OutputFile :=
  sheetWith config group (", ".intercalate modes) (toString (paths.length * modes.length))
    (modes.map (blockOf config declare paths))

/-- The files of sheets whose paths are declared, in every mode, as given. -/
def filesOf (config : Config) (modes : List String) (declare : String → TokenPath → Declaration)
    (sheets : List (String × List TokenPath)) : List OutputFile :=
  sheets.map (fun sheet => sheetOf config modes declare sheet.1 sheet.2) ++
    indexFiles config (sheets.map fun sheet => sheetName sheet.1)

/-- If every placed path has a declaration in every mode, all sheets are written. -/
theorem files_eq_ok {declare : String → TokenPath → Declaration}
    (h : ∀ mode ∈ builtModes config trees, ∀ path ∈ (emittedPaths config trees).flatMap (·.2),
      declaration? identifiers ((OrderedMap.get? trees mode).getD []) path =
        some (declare mode path)) :
    files config trees identifiers =
      .ok (filesOf config (builtModes config trees) declare (emittedPaths config trees)) := by
  have hblock (group : String × List TokenPath) (hgroup : group ∈ emittedPaths config trees)
      (mode : String) (hmode : mode ∈ builtModes config trees) :
      block? config identifiers group.2 mode ((OrderedMap.get? trees mode).getD []) =
        some (blockOf config declare group.2 mode) := by
    unfold block?
    rw [Lists.mapM_eq_some_map fun path hpath =>
      h mode hmode path (List.mem_flatMap.mpr ⟨group, hgroup, hpath⟩)]
    rfl
  have hsheet (group : String × List TokenPath) (hgroup : group ∈ emittedPaths config trees) :
      sheet? config trees identifiers group.1 group.2 =
        some (sheetOf config (builtModes config trees) declare group.1 group.2) := by
    unfold sheet?
    simp only
    rw [Lists.mapM_eq_some_map (hblock group hgroup)]
    rfl
  unfold files
  simp only
  rw [Lists.mapM_eq_some_map hsheet]
  rfl

/-- Where sheets are written, every placed path has a declaration in every mode. -/
theorem exists_declaration_of_files_eq_ok {written : List OutputFile}
    (h : files config trees identifiers = .ok written) {mode : String}
    (hmode : mode ∈ builtModes config trees) {path : TokenPath}
    (hpath : path ∈ (emittedPaths config trees).flatMap (·.2)) :
    ∃ declaration, declaration? identifiers ((OrderedMap.get? trees mode).getD []) path =
      some declaration := by
  obtain ⟨group, hgroup, hmem⟩ := List.mem_flatMap.mp hpath
  unfold files at h
  simp only at h
  split at h
  · cases h
  · rename_i sheets hsheets
    obtain ⟨sheet, hsheet⟩ := Lists.exists_of_mapM_eq_some hsheets hgroup
    unfold sheet? at hsheet
    simp only [Option.bind_eq_bind, Option.bind_eq_some_iff] at hsheet
    obtain ⟨blocks, hblocks, _⟩ := hsheet
    obtain ⟨block, hblock⟩ := Lists.exists_of_mapM_eq_some hblocks hmode
    obtain ⟨declarations, hdeclarations, _⟩ := Option.map_eq_some_iff.mp hblock
    exact Lists.exists_of_mapM_eq_some hdeclarations hmem

/-! ## The files in closed form -/

variable {modes : List String} {declare : String → TokenPath → Declaration}
  {sheets : List (String × List TokenPath)}

/-- The paths of the files do not depend on the modes, nor on what is declared. -/
theorem paths_filesOf : (filesOf config modes declare sheets).map (·.path) =
    sheets.map (fun sheet => config.theme ++ "/" ++ sheetName sheet.1) ++
      [config.theme ++ "/" ++ indexName, indexName] := by
  unfold filesOf indexFiles
  rw [List.map_append, List.map_map]
  rfl

/-- Neither do the indexes. -/
theorem indexes_filesOf : (filesOf config modes declare sheets).filter (·.kind = .index) =
    indexFiles config (sheets.map fun sheet => sheetName sheet.1) := by
  unfold filesOf
  rw [List.filter_append, List.filter_eq_nil_iff.mpr, List.nil_append]
  · rfl
  · intro file hfile
    obtain ⟨sheet, _, rfl⟩ := List.mem_map.mp hfile
    simp [sheetOf, sheetWith]

/-- What is declared in modes that are not built makes no difference. -/
theorem filesOf_congr {declare' : String → TokenPath → Declaration}
    (h : ∀ mode ∈ modes, declare mode = declare' mode) :
    filesOf config modes declare sheets = filesOf config modes declare' sheets := by
  have hblocks (paths : List TokenPath) :
      modes.map (blockOf config declare paths) = modes.map (blockOf config declare' paths) := by
    refine List.map_congr_left fun mode hmode => ?_
    unfold blockOf
    rw [h mode hmode]
  unfold filesOf sheetOf
  simp only [hblocks]

end DesignTokens.Css
