import DesignTokens.Proofs.Css.Sheet
import DesignTokens.Proofs.Text.Words
/-!
# Sheets by their blocks

A sheet seen as the data that it shows: the group, the number in its head, and the declarations in
the block of every mode.  The number is that of all the declarations.  An index is read back line by
line into what it imports.
-/

set_option autoImplicit false

namespace DesignTokens

namespace Css

/-! ## Blocks -/

/-- What the sheet of a group shows: the number of variables in its head, and the declarations in
the block of every mode. -/
structure Sheet where
  group : String
  count : Nat
  blocks : List (String × List Declaration)

namespace Sheet

/-- The file of a sheet. -/
def file (config : Config) (sheet : Sheet) : OutputFile :=
  sheetWith config sheet.group (", ".intercalate (sheet.blocks.map (·.1)))
    (toString sheet.count) (sheet.blocks.map fun block =>
      modeBlock config block.1 block.2)

/-- The declarations in the blocks of a mode. -/
def declaredIn (sheet : Sheet) (mode : String) : List Declaration :=
  (sheet.blocks.filter fun block => block.1 = mode).flatMap (·.2)

/-- The declarations in all blocks. -/
def declared (sheet : Sheet) : List Declaration :=
  sheet.blocks.flatMap (·.2)

/-- The sheet of a group whose paths are declared, in every mode, as given. -/
def ofPaths (modes : List String) (declare : String → TokenPath → Declaration)
    (members : String × List TokenPath) : Sheet :=
  ⟨members.1, members.2.length * modes.length,
    modes.map fun mode => (mode, members.2.map (declare mode))⟩

variable {modes : List String} {declare : String → TokenPath → Declaration}

theorem file_ofPaths (config : Config) (members : String × List TokenPath) :
    (ofPaths modes declare members).file config =
      sheetOf config modes declare members.1 members.2 := by
  unfold file ofPaths
  simp only [List.map_map, Function.comp_def, List.map_id']
  rfl

/-- A mode has one block in every sheet. -/
theorem declaredIn_ofPaths (hmodes : modes.Nodup) {mode : String} (hmode : mode ∈ modes)
    (members : String × List TokenPath) :
    (ofPaths modes declare members).declaredIn mode = members.2.map (declare mode) := by
  have hone : modes.filter (fun other => decide (other = mode)) = [mode] := by
    rw [List.filter_eq, hmodes.count, if_pos hmode, List.replicate_one]
  unfold declaredIn ofPaths
  rw [List.filter_map]
  simp only [Function.comp_def]
  rw [hone]
  simp

/-- The number in the head of a sheet is that of the declarations in its blocks. -/
theorem length_declared_ofPaths (members : String × List TokenPath) :
    (ofPaths modes declare members).declared.length =
      (ofPaths modes declare members).count := by
  simp [declared, ofPaths, List.length_flatMap, Function.comp_def, Nat.mul_comm]

end Sheet

/-- The files of declared sheets are those of their blocks. -/
theorem filesOf_eq (config : Config) (modes : List String)
    (declare : String → TokenPath → Declaration) (placed : List (String × List TokenPath)) :
    filesOf config modes declare placed =
      (placed.map (Sheet.ofPaths modes declare)).map (Sheet.file config) ++
        indexFiles config ((placed.map (Sheet.ofPaths modes declare)).map fun sheet =>
          sheetName sheet.group) := by
  unfold filesOf
  rw [List.map_map, List.map_map]
  simp only [Function.comp_def, Sheet.file_ofPaths]
  rfl

/-! ## Imports of an index -/

/-- What a line imports: what it quotes, if it is an import. -/
def importedBy? (line : List Char) : Option String :=
  match "@import '".toList.isPrefixOf line, "';".toList.isSuffixOf line with
  | true, true => some (String.ofList ((line.drop 9).dropLast.dropLast))
  | _, _ => none

/-- What the lines of a style sheet import, in order. -/
def importsIn (content : String) : List String :=
  (Text.splitAtChar '\n' content.toList).filterMap importedBy?

/-- The characters of an import, without the end of its line. -/
def importText (target : String) : List Char :=
  "@import '".toList ++ target.toList ++ "';".toList

theorem toList_importLine (target : String) :
    (importLine target).toList = importText target ++ ['\n'] := by
  unfold importText
  simp [importLine]

/-- An import is read back. -/
theorem importedBy?_importText (target : String) : importedBy? (importText target) = some target := by
  have hclosing : "';".toList = ['\'', ';'] := by decide
  unfold importedBy? importText
  have hfront : "@import '".toList.isPrefixOf
      ("@import '".toList ++ target.toList ++ "';".toList) = true := by
    rw [List.isPrefixOf_iff_prefix, List.append_assoc]
    exact List.prefix_append _ _
  have hback : "';".toList.isSuffixOf
      ("@import '".toList ++ target.toList ++ "';".toList) = true := by
    rw [List.isSuffixOf_iff_suffix]
    exact List.suffix_append _ _
  have hquoted : (("@import '".toList ++ target.toList ++ "';".toList).drop 9).dropLast.dropLast =
      target.toList := by
    rw [List.append_assoc, List.drop_left' (by decide), hclosing, List.append_cons,
      List.dropLast_concat, List.dropLast_concat]
  rw [hfront, hback, hquoted, String.ofList_toList]

/-- A line that begins otherwise imports nothing. -/
theorem importedBy?_eq_none {line : List Char} (h : line.head? ≠ some '@') :
    importedBy? line = none := by
  unfold importedBy?
  cases line with
  | nil => rfl
  | cons c rest =>
    have hc : '@' ≠ c := fun heq => h (by rw [← heq]; rfl)
    have hfront : "@import '".toList = '@' :: "import '".toList := by decide
    rw [hfront, List.isPrefixOf_cons_cons, beq_eq_false_iff_ne.mpr hc, Bool.false_and]

/-- Lines that are read one by one. -/
theorem importsIn_of_lines {content : String} {lines : List (List Char)}
    (hlines : ∀ line ∈ lines, '\n' ∉ line)
    (hcontent : content.toList = lines.flatMap fun line => line ++ ['\n']) :
    importsIn content = lines.filterMap importedBy? := by
  unfold importsIn
  rw [hcontent, ← List.append_nil (lines.flatMap _),
    Text.splitAtChar_flatMap hlines List.not_mem_nil, List.filterMap_append,
    List.filterMap_cons_none rfl, List.filterMap_nil, List.append_nil]

/-- The lines at the head of the index of a theme. -/
def indexHead (title : String) : List (List Char) :=
  [(comment title).toList, (comment "Auto-generated theme imports").toList, []]

theorem toList_indexHead (title : String) :
    (header title "Auto-generated theme imports" []).toList =
      (indexHead title).flatMap fun line => line ++ ['\n'] := by
  simp [header, indexHead]

theorem not_mem_indexHead {title : String} (htitle : '\n' ∉ title.toList) :
    ∀ line ∈ indexHead title, '\n' ∉ line := by
  intro line hline
  simp only [indexHead, List.mem_cons, List.not_mem_nil, or_false] at hline
  rcases hline with rfl | rfl | rfl
  · simp [comment, htitle]
  · decide
  · exact List.not_mem_nil

/-- The head of an index imports nothing. -/
theorem importedBy?_indexHead (title : String) :
    (indexHead title).filterMap importedBy? = [] := by
  have hopening : "/* ".toList = '/' :: "* ".toList := by decide
  refine List.filterMap_eq_nil_iff.mpr fun line hline => importedBy?_eq_none ?_
  simp only [indexHead, comment, String.toList_append, hopening, List.mem_cons, List.not_mem_nil,
    or_false] at hline
  rcases hline with rfl | rfl | rfl <;> simp

/-- The index of a theme imports what it is given, in order. -/
theorem importsIn_index {title : String} (htitle : '\n' ∉ title.toList) {targets : List String}
    (htargets : ∀ target ∈ targets, '\n' ∉ target.toList) :
    importsIn (header title "Auto-generated theme imports" [] ++
      "".intercalate (targets.map importLine)) = targets := by
  have hcontent : (header title "Auto-generated theme imports" [] ++
      "".intercalate (targets.map importLine)).toList =
        (indexHead title ++ targets.map importText).flatMap fun line => line ++ ['\n'] := by
    rw [String.toList_append, toList_indexHead, Text.toList_joined, List.flatMap_append,
      List.flatMap_map, List.flatMap_map]
    simp only [toList_importLine]
  have hlines : ∀ line ∈ indexHead title ++ targets.map importText, '\n' ∉ line := by
    intro line hline
    rcases List.mem_append.mp hline with hhead | himport
    · exact not_mem_indexHead htitle line hhead
    · obtain ⟨target, htarget, rfl⟩ := List.mem_map.mp himport
      unfold importText
      simp [htargets target htarget]
  rw [importsIn_of_lines hlines hcontent, List.filterMap_append, importedBy?_indexHead,
    List.nil_append, List.filterMap_map]
  simp only [Function.comp_def, importedBy?_importText, List.filterMap_some]

end Css

end DesignTokens
