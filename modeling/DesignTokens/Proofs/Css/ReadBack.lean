import DesignTokens.Proofs.Css.Blocks
import DesignTokens.Proofs.Css.Lines
import DesignTokens.Proofs.Css.Rule
/-!
# Reading a sheet back

What the file of a sheet shows can be read back from its text: the number of variables from a line
of the head, and the declarations of every mode from the blocks behind it.  The reader knows the
order of the lines and the selectors, but not how heads and blocks are written.
-/

set_option autoImplicit false

namespace DesignTokens.Css

/-! ## The reader -/

/-- The text behind its first lines. -/
def dropLines : Nat → List Char → List Char
  | 0, cs => cs
  | _ + 1, [] => []
  | n + 1, c :: rest => if c = '\n' then dropLines n rest else dropLines (n + 1) rest

/-- How often names begin a new line. -/
def lineEnds (names : List String) : Nat :=
  (names.flatMap String.toList).count '\n'

/-- The number of variables that a line tells. -/
def countOn? (line : List Char) : Option Nat :=
  (" * variables: ".toList.isPrefixOf? line).map fun digits => Nat.ofDigitChars 10 digits 0

/-- The number of variables that a sheet tells.  It stands on the seventh line, below the names of
the modes, which may go over several lines. -/
def variablesIn? (modes : List String) (content : String) : Option Nat :=
  countOn? (Decimal.splitAtMark '\n' (dropLines (6 + lineEnds modes) content.toList)).1

/-- The declarations of the blocks that stand, each with its selector, at the front of a text, with
two line ends between them. -/
def readBlocks? : List String → List Char → Option (List (List Declaration))
  | [], _ => some []
  | selector :: later, cs => do
    let (declarations, behind) ← readBehind? selector cs
    let blocks ← readBlocks? later (behind.drop 2)
    return declarations :: blocks

/-- The declarations of the modes of a sheet.  Their blocks begin on the tenth line. -/
def blocksIn? (config : Config) (modes : List String) (content : String) :
    Option (List (List Declaration)) :=
  readBlocks? (modes.map (modeSelector config.defaultMode))
    (dropLines (9 + lineEnds modes) content.toList)

/-! ## Lines -/

/-- A line is dropped whole, with the line ends that it holds itself. -/
theorem dropLines_line (cs rest : List Char) (n : Nat) :
    dropLines (cs.count '\n' + 1 + n) (cs ++ '\n' :: rest) = dropLines n rest := by
  induction cs with
  | nil => rw [List.count_nil, Nat.zero_add, Nat.add_comm, List.nil_append, dropLines, if_pos rfl]
  | cons c cs ih =>
    by_cases hc : c = '\n'
    · subst hc
      rw [List.count_cons_self, Nat.add_right_comm, List.cons_append, dropLines, if_pos rfl, ih]
    · rw [List.count_cons_of_ne hc, Nat.add_right_comm, List.cons_append, dropLines, if_neg hc,
        Nat.add_right_comm, ih]

theorem dropLines_lines (lines : List (List Char)) (rest : List Char) :
    dropLines (lines.map (·.count '\n' + 1)).sum
      (lines.flatMap (fun line => line ++ ['\n']) ++ rest) = rest := by
  induction lines with
  | nil => simp [dropLines]
  | cons line lines ih =>
    rw [List.map_cons, List.sum_cons, List.flatMap_cons, List.append_assoc, List.append_assoc,
      List.singleton_append, dropLines_line, ih]

/-- Names that are joined begin a new line as often as they do apart. -/
theorem count_joined (modes : List String) :
    (", ".intercalate modes).toList.count '\n' = lineEnds modes := by
  have hseparator : ", ".toList.count '\n' = 0 := by decide
  rw [String.toList_intercalate]
  unfold lineEnds
  cases modes with
  | nil => rfl
  | cons mode modes =>
    rw [List.map_cons, Lists.intercalate_cons, List.flatMap_cons, List.count_append,
      List.count_append, Nat.add_left_cancel_iff]
    induction modes with
    | nil => rfl
    | cons mode modes ih =>
      rw [List.map_cons, List.flatMap_cons, List.flatMap_cons, List.count_append, List.count_append,
        List.count_append, hseparator, Nat.zero_add, ih]

/-! ## The head -/

/-- The lines at the head of a sheet, above the number of variables. -/
def headLines (config : Config) (group : String) (modes : List String) : List (List Char) :=
  [(comment (sheetName group)).toList,
    (comment (capitalize group ++ " tokens for all modes")).toList, "/*".toList,
    " * theme: ".toList ++ config.theme.toList,
    " * modes: ".toList ++ (", ".intercalate modes).toList, " * group: ".toList ++ group.toList]

/-- The line that tells the number of variables. -/
def countLine (number : Nat) : List Char :=
  " * variables: ".toList ++ Nat.toDigits 10 number

theorem toList_sheetWith (config : Config) (group : String) (modes : List String) (number : Nat)
    (blocks : List String) :
    (sheetWith config group (", ".intercalate modes) (toString number) blocks).content.toList =
      (headLines config group modes).flatMap (fun line => line ++ ['\n']) ++
        (countLine number ++ '\n' :: (" */".toList ++ '\n' :: '\n' ::
          (("\n\n".intercalate blocks).toList ++ ['\n']))) := by
  have hdescribed : capitalize group ++ " tokens for all modes" ≠ "" := by
    intro hempty
    have hlength := congrArg String.length hempty
    simp at hlength
  have hlabels : " * theme: ".toList = " * ".toList ++ "theme".toList ++ ": ".toList ∧
      " * modes: ".toList = " * ".toList ++ "modes".toList ++ ": ".toList ∧
      " * group: ".toList = " * ".toList ++ "group".toList ++ ": ".toList ∧
      " * variables: ".toList = " * ".toList ++ "variables".toList ++ ": ".toList := by
    decide
  obtain ⟨htheme, hmodes, hgroup, hvariables⟩ := hlabels
  have hnumber : (toString number).toList = Nat.toDigits 10 number := Nat.toList_repr
  unfold sheetWith header headLines countLine
  simp only [hnumber, if_neg hdescribed, List.isEmpty_cons, Bool.false_eq_true, if_false, htheme,
    hmodes, hgroup, hvariables, List.map_cons, List.map_nil, String.toList_append, List.cons_append,
    String.toList_intercalate, List.nil_append, Lists.intercalate_cons, List.flatMap_cons,
    List.flatMap_nil, List.append_assoc, List.append_nil]
  rfl

variable {config : Config} {group : String} {modes : List String} {blocks : List String}

/-- There are six of them, and as many more as the names of modes begin. -/
theorem sum_headLines (htheme : '\n' ∉ config.theme.toList) (hgroup : '\n' ∉ group.toList) :
    ((headLines config group modes).map (·.count '\n' + 1)).sum = 6 + lineEnds modes := by
  have hname : '\n' ∉ (comment (sheetName group)).toList := by
    simp [comment, sheetName, hgroup]
  have hcapital : '\n' ∉ (capitalize group).toList := not_mem_capitalize (by decide) hgroup
  have hdescription : '\n' ∉ (comment (capitalize group ++ " tokens for all modes")).toList := by
    simp [comment, hcapital]
  have hwritten : "/*".toList.count '\n' = 0 ∧ " * theme: ".toList.count '\n' = 0 ∧
      " * modes: ".toList.count '\n' = 0 ∧ " * group: ".toList.count '\n' = 0 := by
    decide
  obtain ⟨hopening, hlabel, hlabel', hlabel''⟩ := hwritten
  simp only [headLines, List.map_cons, List.map_nil, List.sum_cons, List.sum_nil, List.count_append,
    count_joined, List.count_eq_zero.mpr hname, List.count_eq_zero.mpr hdescription, hopening,
    hlabel, hlabel', hlabel'', List.count_eq_zero.mpr htheme, List.count_eq_zero.mpr hgroup]
  omega

theorem not_mem_countLine (number : Nat) : '\n' ∉ countLine number := by
  have hlabel : '\n' ∉ " * variables: ".toList := by decide
  refine List.not_mem_append hlabel fun hmem => ?_
  have hdigit := Decimal.allDigits_toDigits number _ hmem
  cases hdigit

/-- The number of variables is read back from a sheet. -/
theorem variablesIn?_sheetWith (htheme : '\n' ∉ config.theme.toList) (hgroup : '\n' ∉ group.toList)
    (number : Nat) :
    variablesIn? modes
      (sheetWith config group (", ".intercalate modes) (toString number) blocks).content =
        some number := by
  have hdigits : " * variables: ".toList.isPrefixOf? (countLine number) =
      some (Nat.toDigits 10 number) :=
    List.isPrefixOf?_eq_some_iff_append_eq.mpr rfl
  unfold variablesIn? countOn?
  rw [toList_sheetWith, ← sum_headLines htheme hgroup, dropLines_lines,
    Decimal.splitAtMark_append (not_mem_countLine number), hdigits, Option.map_some,
    Nat.ofDigitChars_ten_toDigits]

/-! ## The blocks -/

/-- Blocks of contained declarations are read back one after the other. -/
theorem readBlocks?_flatMap {shown : List (String × List Declaration)}
    (h : ∀ block ∈ shown, ∀ d ∈ block.2, d.Contained) (rest : List Char) :
    readBlocks? (shown.map fun block => modeSelector config.defaultMode block.1)
      ((shown.flatMap (fun block => "\n\n".toList ++ (modeBlock config block.1 block.2).toList) ++
        rest).drop 2) = some (shown.map (·.2)) := by
  induction shown with
  | nil => rfl
  | cons block shown ih =>
    obtain ⟨hblock, hshown⟩ := List.forall_mem_cons.mp h
    have hdropped (cs : List Char) : ("\n\n".toList ++ cs).drop 2 = cs := rfl
    rw [List.map_cons, List.map_cons, List.flatMap_cons, readBlocks?, List.append_assoc,
      List.append_assoc, hdropped, modeBlock, readBehind?_rule config.minify _ hblock]
    simp only [Option.bind_eq_bind, Option.bind_some, ih hshown]
    rfl

/-- Blocks that are joined stand each behind two line ends, but for the first. -/
theorem toList_joined_append {shown : List (String × List Declaration)} (hshown : shown ≠ [])
    (rest : List Char) :
    ("\n\n".intercalate (shown.map fun block => modeBlock config block.1 block.2)).toList ++ rest =
      (shown.flatMap (fun block => "\n\n".toList ++ (modeBlock config block.1 block.2).toList) ++
        rest).drop 2 := by
  have hdropped (cs : List Char) : ("\n\n".toList ++ cs).drop 2 = cs := rfl
  obtain ⟨block, shown, rfl⟩ := List.exists_cons_of_ne_nil hshown
  rw [String.toList_intercalate, List.map_cons, List.map_cons, Lists.intercalate_cons,
    List.flatMap_cons, List.map_map, List.flatMap_map, List.append_assoc, List.append_assoc,
    List.append_assoc, hdropped]
  rfl

/-- The declarations of the modes are read back from a sheet. -/
theorem blocksIn?_sheetWith (htheme : '\n' ∉ config.theme.toList) (hgroup : '\n' ∉ group.toList)
    {shown : List (String × List Declaration)}
    (h : ∀ block ∈ shown, ∀ d ∈ block.2, d.Contained) (number : Nat) :
    blocksIn? config (shown.map (·.1))
      (sheetWith config group (", ".intercalate (shown.map (·.1))) (toString number)
        (shown.map fun block => modeBlock config block.1 block.2)).content =
        some (shown.map (·.2)) := by
  let lines := headLines config group (shown.map (·.1)) ++ [countLine number, " */".toList, []]
  have hlines : 9 + lineEnds (shown.map (·.1)) = (lines.map (·.count '\n' + 1)).sum := by
    have hcount := List.count_eq_zero.mpr (not_mem_countLine number)
    have hclosing : " */".toList.count '\n' = 0 := by decide
    rw [List.map_append, List.sum_append, sum_headLines htheme hgroup]
    simp only [List.map_cons, List.map_nil, List.sum_cons, List.sum_nil, hcount, hclosing,
      List.count_nil]
    omega
  have hcontent (cs : List Char) :
      (headLines config group (shown.map (·.1))).flatMap (fun line => line ++ ['\n']) ++
        (countLine number ++ '\n' :: (" */".toList ++ '\n' :: '\n' :: cs)) =
      lines.flatMap (fun line => line ++ ['\n']) ++ cs := by
    rw [List.flatMap_append]
    simp
  unfold blocksIn?
  rw [toList_sheetWith, hlines, hcontent, dropLines_lines, List.map_map]
  by_cases hshown : shown = []
  · rw [hshown]
    rfl
  · rw [toList_joined_append hshown]
    exact readBlocks?_flatMap h _

/-! ## The file of a sheet -/

namespace Sheet

variable {sheet : Sheet}

/-- The number of variables is read back from the file of a sheet. -/
theorem variablesIn?_file (htheme : '\n' ∉ config.theme.toList)
    (hgroup : '\n' ∉ sheet.group.toList) :
    variablesIn? (sheet.blocks.map (·.1)) (sheet.file config).content = some sheet.count :=
  variablesIn?_sheetWith htheme hgroup sheet.count

/-- The declarations of its blocks are read back if they are contained. -/
theorem blocksIn?_file (htheme : '\n' ∉ config.theme.toList) (hgroup : '\n' ∉ sheet.group.toList)
    (h : ∀ d ∈ sheet.declared, d.Contained) :
    blocksIn? config (sheet.blocks.map (·.1)) (sheet.file config).content =
      some (sheet.blocks.map (·.2)) :=
  blocksIn?_sheetWith htheme hgroup
    (fun block hblock d hd => h d (List.mem_flatMap.mpr ⟨block, hblock, hd⟩)) sheet.count

end Sheet

end DesignTokens.Css
