import DesignTokens.FileTree.Glob
import DesignTokens.Proofs.FileTree.Places
import DesignTokens.Proofs.Lists
/-!
# What a name pattern leads to

A pattern of one star and a suffix stands for the names that end in the suffix.  Looked for from a
directory, a name pattern leads to the entries below with such a name, by the paths that go straight
down to them and by no others.
-/

set_option autoImplicit false

namespace DesignTokens

/-! ## Names with a suffix -/

namespace Glob

/-- Whether a character of a pattern stands for itself. -/
def isLiteral (c : Char) : Bool :=
  c != '*' && c != '?' && c != '['

variable {literal name : List Char} {fuel : Nat}

theorem matchesChars_cons {c : Char} (hc : isLiteral c = true) (fuel : Nat)
    (literal name : List Char) :
    matchesChars (fuel + 1) (c :: literal) name =
      match name with
      | d :: rest => d == c && matchesChars fuel literal rest
      | [] => false := by
  have hne {d : Char} (hd : isLiteral d = false) : c ≠ d := by
    rintro rfl
    rw [hc] at hd
    cases hd
  rw [matchesChars.eq_def]
  split
  case h_1 heq => cases heq
  case h_2 heq => cases heq
  case h_3 heq => exact absurd (List.cons.inj heq).1 (hne rfl)
  case h_4 heq => exact absurd (List.cons.inj heq).1 (hne rfl)
  case h_5 heq => exact absurd (List.cons.inj heq).1 (hne rfl)
  case h_6 name _ _ _ _ _ _ _ _ _ hfuel heq =>
    cases hfuel
    cases heq
    cases name <;> rfl

/-- A pattern of characters that stand for themselves matches one name. -/
theorem matchesChars_literal (h : literal.all isLiteral = true)
    (hfuel : literal.length < fuel) :
    matchesChars fuel literal name = true ↔ name = literal := by
  induction literal generalizing fuel name with
  | nil =>
    obtain ⟨fuel, rfl⟩ := Nat.exists_eq_succ_of_ne_zero (Nat.ne_of_gt hfuel)
    rw [matchesChars, List.isEmpty_iff]
  | cons c literal ih =>
    obtain ⟨fuel, rfl⟩ := Nat.exists_eq_succ_of_ne_zero (Nat.ne_zero_of_lt hfuel)
    rw [List.all_cons, Bool.and_eq_true] at h
    rw [matchesChars_cons h.1]
    cases name with
    | nil => simp
    | cons d rest =>
      have hrest : matchesChars fuel literal rest = true ↔ rest = literal :=
        ih h.2 (Nat.lt_of_succ_lt_succ hfuel)
      simp [hrest]

/-- With a star before it, it matches the names that end so. -/
theorem matchesChars_star (h : literal.all isLiteral = true)
    (hfuel : literal.length + name.length + 1 < fuel) :
    matchesChars fuel ('*' :: literal) name = true ↔ literal <:+ name := by
  induction name generalizing fuel with
  | nil =>
    obtain ⟨fuel, rfl⟩ := Nat.exists_eq_succ_of_ne_zero (Nat.ne_zero_of_lt hfuel)
    rw [matchesChars, Bool.or_false, matchesChars_literal h (by simp at hfuel; omega),
      List.suffix_nil, eq_comm]
  | cons c name ih =>
    obtain ⟨fuel, rfl⟩ := Nat.exists_eq_succ_of_ne_zero (Nat.ne_zero_of_lt hfuel)
    simp only [List.length_cons] at hfuel
    rw [matchesChars, Bool.or_eq_true, matchesChars_literal h (by omega), ih (by omega),
      List.suffix_cons_iff, eq_comm]

theorem matchesName_json {name : String} :
    matchesName "*.json" name = true ↔ ∃ stem, name = stem ++ ".json" := by
  have hpattern : "*.json".toList = '*' :: ".json".toList := by decide
  have hfuel :
      ".json".toList.length + name.toList.length + 1 < "*.json".length + name.length + 1 := by
    have hlength : ".json".toList.length < "*.json".length := by decide
    have hname : name.toList.length = name.length := String.length_toList
    omega
  unfold matchesName
  rw [hpattern, matchesChars_star (by decide) hfuel]
  constructor
  · rintro ⟨stem, hstem⟩
    refine ⟨String.ofList stem, ?_⟩
    rw [← String.toList_inj, String.toList_append, String.toList_ofList, hstem]
  · rintro ⟨stem, rfl⟩
    rw [String.toList_append]
    exact List.suffix_append _ _

end Glob

/-! ## Paths that go down -/

namespace Path

/-- The path that goes down from another one by some names. -/
def down (path : Path) (names : List String) : Path :=
  { path with names := path.names ++ names }

theorem down_nil (path : Path) : path.down [] = path := by
  unfold down
  rw [List.append_nil]

theorem down_down (path : Path) (names more : List String) :
    (path.down names).down more = path.down (names ++ more) := by
  unfold down
  rw [List.append_assoc]

theorem exists_intercalate_append (separator first : String) (names more : List String) :
    ∃ rest, separator.intercalate (first :: names ++ more) =
      separator.intercalate (first :: names) ++ rest := by
  let rest := (more.map String.toList).flatMap fun name => separator.toList ++ name
  refine ⟨String.ofList rest, ?_⟩
  rw [← String.toList_inj, String.toList_append, String.toList_ofList, String.toList_intercalate,
    String.toList_intercalate, List.cons_append, List.map_cons, List.map_cons,
    Lists.intercalate_cons, Lists.intercalate_cons, List.map_append, List.flatMap_append,
    List.append_assoc]

/-- A path is hardly longer than what goes down from it: the working directory is written by a
character of its own. -/
theorem utf8ByteSize_toString_le (path : Path) (names : List String) :
    path.toString.utf8ByteSize ≤ max 1 (path.down names).toString.utf8ByteSize := by
  obtain ⟨anchor, own⟩ := path
  unfold toString down
  by_cases hhere : anchor = .here ∧ own = []
  · rw [if_pos hhere]
    exact Nat.le_max_left 1 _
  · have hmore : ¬ (anchor = .here ∧ own ++ names = []) := by
      rintro ⟨hanchor, happend⟩
      exact hhere ⟨hanchor, (List.append_eq_nil_iff.mp happend).1⟩
    rw [if_neg hhere, if_neg hmore, String.utf8ByteSize_append, String.utf8ByteSize_append]
    refine Nat.le_trans (Nat.add_le_add_left ?_ _) (Nat.le_max_right 1 _)
    cases own with
    | nil => exact Nat.zero_le _
    | cons first own =>
      obtain ⟨rest, hrest⟩ := exists_intercalate_append "/" first own names
      simp only at hrest ⊢
      rw [hrest, String.utf8ByteSize_append]
      exact Nat.le_add_right _ _

end Path

namespace FileTree

variable {tree : FileTree} {directory path : Path} {place location : Location} {names : List String}

theorem descend_append (tree : FileTree) (start : Location) (first second : List String) :
    tree.descend start (first ++ second) =
      match tree.descend start first with
      | .ok place => tree.descend place second
      | .error fault => .error fault := by
  induction first generalizing start with
  | nil => rfl
  | cons name first ih =>
    rw [List.cons_append, descend, descend]
    cases tree.entry? start with
    | none => rfl
    | some entry =>
      cases entry with
      | file bytes time => rfl
      | directory time =>
        simp only
        split
        · rfl
        · exact ih _

/-- A path that goes down leads on from where the upper one leads. -/
theorem exists_locate_of_down (h : tree.locate (directory.down names) = .ok location) :
    ∃ place, tree.locate directory = .ok place ∧ tree.descend place names = .ok location := by
  have hsize := directory.utf8ByteSize_toString_le names
  unfold locate at h ⊢
  split at h
  · cases h
  · rename_i hnul
    split at h
    · cases h
    · rename_i hshort
      have hnul' : ¬ directory.hasNul = true := by
        intro hall
        refine hnul ?_
        unfold Path.hasNul Path.down at *
        rw [List.any_append, hall, Bool.true_or]
      have hshort' : ¬ maxPathSize < directory.toString.utf8ByteSize := by
        unfold maxPathSize at *
        omega
      rw [if_neg hnul', if_neg hshort']
      change tree.descend (if directory.isAbsolute then [] else tree.workingDirectory)
        (directory.names ++ names) = .ok location at h
      rw [descend_append] at h
      split at h
      · rename_i place hplace
        exact ⟨place, hplace, h⟩
      · cases h

/-- Names that do not step upwards are put to a place one by one. -/
theorem foldl_names (hup : ".." ∉ names) (start : Location) :
    names.foldl
      (fun location name => if name = ".." then location.dropLast else location ++ [name]) start =
      start ++ names := by
  induction names generalizing start with
  | nil => exact (List.append_nil start).symm
  | cons name names ih =>
    rw [List.mem_cons, not_or] at hup
    rw [List.foldl_cons, if_neg (Ne.symm hup.1), ih hup.2, List.append_assoc, List.singleton_append]

theorem eq_append_of_descend (hup : ".." ∉ names) (h : tree.descend place names = .ok location) :
    location = place ++ names := by
  rw [eq_foldl_of_descend h, foldl_names hup]

theorem normalize_down (hup : ".." ∉ names) :
    tree.normalize (directory.down names) = tree.normalize directory ++ names := by
  unfold normalize Path.down
  rw [List.foldl_append]
  exact foldl_names hup _

theorem exists_entry_of_hasEntry (h : tree.hasEntry path = true) :
    ∃ location entry, tree.locate path = .ok location ∧ tree.entry? location = some entry := by
  unfold hasEntry stat at h
  cases hlocate : tree.locate path with
  | error fault =>
    rw [hlocate] at h
    cases h
  | ok location =>
    rw [hlocate] at h
    cases hentry : tree.entry? location with
    | none =>
      simp only [bind, Except.bind, hentry] at h
      cases h
    | some entry => exact ⟨location, entry, rfl, hentry⟩

/-- Names lead on from directories only. -/
theorem entry?_of_descend_append {name : String} (hup : ".." ∉ names)
    (h : tree.descend place (names ++ [name]) = .ok location) :
    ∃ time, tree.entry? (place ++ names) = some (.directory time) := by
  rw [descend_append] at h
  split at h
  · rename_i above habove
    rw [eq_append_of_descend hup habove, descend] at h
    split at h
    · cases h
    · cases h
    · rename_i time hentry
      exact ⟨time, hentry⟩
  · cases h

/-- What lies below is below a directory. -/
theorem hasDirectory_of_down (hne : names ≠ []) (h : tree.hasEntry (directory.down names) = true) :
    tree.hasDirectory directory = true := by
  obtain ⟨location, entry, hlocate, -⟩ := exists_entry_of_hasEntry h
  obtain ⟨place, hplace, hdescend⟩ := exists_locate_of_down hlocate
  obtain ⟨name, rest, rfl⟩ := List.exists_cons_of_ne_nil hne
  rw [descend] at hdescend
  unfold hasDirectory stat
  rw [hplace]
  split at hdescend
  · cases hdescend
  · cases hdescend
  · rename_i time hentry
    simp [bind, Except.bind, hentry, Entry.isDirectory]

/-! ## Names of a possible size -/

theorem size_of_descend (h : tree.descend place names = .ok location) :
    ∀ name ∈ names, ¬ maxNameSize < name.utf8ByteSize := by
  induction names generalizing place with
  | nil => nofun
  | cons name names ih =>
    rw [descend] at h
    split at h
    · cases h
    · cases h
    · split at h
      · cases h
      · rename_i hsize
        exact List.forall_mem_cons.mpr ⟨hsize, ih h⟩

theorem descend_ne_nameTooLong (tree : FileTree) (place : Location)
    (h : ∀ name ∈ names, ¬ maxNameSize < name.utf8ByteSize) :
    tree.descend place names ≠ .error .nameTooLong := by
  induction names generalizing place with
  | nil =>
    intro hlong
    cases hlong
  | cons name names ih =>
    obtain ⟨hname, hnames⟩ := List.forall_mem_cons.mp h
    intro hlong
    rw [descend] at hlong
    split at hlong
    · cases hlong
    · cases hlong
    · rw [if_neg hname] at hlong
      exact ih _ hnames hlong

/-- A path that leads to an entry in one tree can be looked for in any other one. -/
theorem exists_findEntry_of_hasEntry (h : tree.hasEntry path = true) (other : FileTree) :
    path.hasNul = false ∧ ∃ found, other.findEntry path = .ok found := by
  obtain ⟨location, -, hlocate, -⟩ := exists_entry_of_hasEntry h
  unfold locate at hlocate
  split at hlocate
  · cases hlocate
  · rename_i hnul
    split at hlocate
    · cases hlocate
    · rename_i hsize
      have hfits := descend_ne_nameTooLong other
        (if path.isAbsolute then [] else other.workingDirectory) (size_of_descend hlocate)
      refine ⟨Bool.eq_false_iff.mpr hnul, ?_⟩
      unfold findEntry stat locate
      rw [if_neg hnul, if_neg hsize]
      cases hdescend : other.descend (if path.isAbsolute then [] else other.workingDirectory)
          path.names with
      | ok place =>
        simp only [bind, Except.bind]
        cases other.entry? place <;> exact ⟨_, rfl⟩
      | error fault =>
        simp only [bind, Except.bind]
        cases fault <;> first | exact ⟨_, rfl⟩ | exact absurd hdescend hfits

/-! ## What a pattern leads to -/

/-- No entry has the name of the step upwards. -/
def IsPlain (tree : FileTree) : Prop :=
  ∀ entry ∈ tree.entries, ".." ∉ entry.1

instance (tree : FileTree) : Decidable tree.IsPlain :=
  inferInstanceAs (Decidable (∀ entry ∈ tree.entries, ".." ∉ entry.1))

theorem mem_below_iff {entry : Entry} : (names, entry) ∈ tree.below place ↔
    names ≠ [] ∧ (place ++ names, entry) ∈ tree.entries := by
  unfold below
  rw [List.mem_filterMap]
  constructor
  · rintro ⟨⟨found, entry'⟩, hmem, heq⟩
    simp only at heq
    split at heq
    · rename_i hbelow
      cases heq
      rw [Bool.and_eq_true, List.isPrefixOf_iff_prefix, decide_eq_true_eq] at hbelow
      obtain ⟨⟨rest, rfl⟩, hlonger⟩ := hbelow
      rw [List.drop_left]
      refine ⟨?_, hmem⟩
      rintro rfl
      simp at hlonger
    · cases heq
  · rintro ⟨hne, hmem⟩
    refine ⟨_, hmem, ?_⟩
    have hlength := List.length_pos_iff.mpr hne
    simp [hlength]

theorem IsPlain.below (h : tree.IsPlain) {entry : Entry}
    (hmem : (names, entry) ∈ tree.below place) : ".." ∉ names := fun hup =>
  h _ (mem_below_iff.mp hmem).2 (List.mem_append_right _ hup)

theorem mem_below_of_entry? {entry : Entry} (hne : names ≠ [])
    (h : tree.entry? (place ++ names) = some entry) : (names, entry) ∈ tree.below place := by
  unfold entry? at h
  rw [if_neg (by simp [hne])] at h
  exact mem_below_iff.mpr ⟨hne, OrderedMap.mem_of_get?_eq_some h⟩

/-- The directories from a directory on are reached by going down. -/
theorem IsPlain.exists_of_mem_directoriesFrom (h : tree.IsPlain)
    (hmem : path ∈ tree.directoriesFrom directory) :
    ∃ names, ".." ∉ names ∧ path = directory.down names := by
  unfold directoriesFrom at hmem
  split at hmem
  · cases hmem
  · rcases List.mem_cons.mp hmem with rfl | hmem
    · exact ⟨[], List.not_mem_nil, (Path.down_nil _).symm⟩
    · obtain ⟨⟨names, entry⟩, hbelow, hpath⟩ := List.mem_filterMap.mp hmem
      simp only at hpath
      split at hpath
      · cases hpath
        exact ⟨names, h.below hbelow, rfl⟩
      · cases hpath

theorem mem_directoriesFrom {time : Int} (hlocate : tree.locate directory = .ok place)
    (h : tree.entry? (place ++ names) = some (.directory time)) :
    directory.down names ∈ tree.directoriesFrom directory := by
  unfold directoriesFrom
  rw [hlocate]
  cases names with
  | nil =>
    rw [Path.down_nil]
    exact List.mem_cons_self
  | cons name names =>
    have hne : name :: names ≠ [] := List.cons_ne_nil _ _
    refine List.mem_cons_of_mem _ (List.mem_filterMap.mpr ⟨_, mem_below_of_entry? hne h, ?_⟩)
    rfl

theorem IsPlain.ne_of_mem_namesIn (h : tree.IsPlain) {name : String}
    (hmem : name ∈ tree.namesIn directory) : name ≠ ".." := by
  unfold namesIn at hmem
  split at hmem
  · cases hmem
  · obtain ⟨⟨names, entry⟩, hbelow, hname⟩ := List.mem_filterMap.mp hmem
    simp only at hname
    split at hname
    · cases hname
      have hup := h.below hbelow
      rw [List.mem_singleton] at hup
      exact Ne.symm hup
    · cases hname

theorem mem_namesIn {name : String} {entry : Entry} (hlocate : tree.locate directory = .ok place)
    (h : tree.entry? (place ++ [name]) = some entry) : name ∈ tree.namesIn directory := by
  unfold namesIn
  rw [hlocate]
  exact List.mem_filterMap.mpr ⟨_, mem_below_of_entry? (List.cons_ne_nil _ _) h, rfl⟩

theorem mem_select_wildcard_iff {pattern : String} :
    path ∈ tree.select directory [.wildcard pattern] ↔
      ∃ name ∈ tree.namesIn directory, Glob.matchesName pattern name = true ∧
      tree.hasEntry (directory.down [name]) = true ∧ path = directory.down [name] := by
  rw [select, List.mem_flatMap]
  constructor
  · rintro ⟨name, hname, hpath⟩
    obtain ⟨hname, hentry⟩ := List.mem_filter.mp hname
    obtain ⟨hname, hmatches⟩ := List.mem_filter.mp hname
    rw [select, List.mem_singleton] at hpath
    exact ⟨name, hname, hmatches, hentry, hpath⟩
  · rintro ⟨name, hname, hmatches, hentry, hpath⟩
    refine ⟨name, List.mem_filter.mpr ⟨List.mem_filter.mpr ⟨hname, hmatches⟩, hentry⟩, ?_⟩
    rw [select, List.mem_singleton]
    exact hpath

/-- A name pattern leads from a directory to the entries with such a name, at any depth and straight
down. -/
theorem IsPlain.mem_select_iff (h : tree.IsPlain) {pattern : String} :
    path ∈ tree.select directory [.anywhere, .wildcard pattern] ↔
      ∃ names name, ".." ∉ names ++ [name] ∧ Glob.matchesName pattern name = true ∧
        path = directory.down (names ++ [name]) ∧ tree.hasEntry path = true := by
  rw [select, List.mem_flatMap]
  constructor
  · rintro ⟨above, habove, hpath⟩
    obtain ⟨names, hnames, rfl⟩ := h.exists_of_mem_directoriesFrom habove
    obtain ⟨name, hname, hmatches, hentry, rfl⟩ := mem_select_wildcard_iff.mp hpath
    have hup : ".." ∉ names ++ [name] := by
      rw [List.mem_append, not_or, List.mem_singleton]
      exact ⟨hnames, Ne.symm (h.ne_of_mem_namesIn hname)⟩
    exact ⟨names, name, hup, hmatches, Path.down_down .., hentry⟩
  · rintro ⟨names, name, hup, hmatches, rfl, hentry⟩
    obtain ⟨location, entry, hlocate, hheld⟩ := exists_entry_of_hasEntry hentry
    obtain ⟨place, hplace, hdescend⟩ := exists_locate_of_down hlocate
    have hnames : ".." ∉ names := fun hmem => hup (List.mem_append_left _ hmem)
    obtain ⟨time, habove⟩ := entry?_of_descend_append hnames hdescend
    rw [← Path.down_down] at hlocate hentry ⊢
    obtain ⟨above, hway, hlast⟩ := exists_locate_of_down hlocate
    have hsame : above = place ++ names := by
      obtain ⟨place', hplace', hdown⟩ := exists_locate_of_down hway
      rw [hplace] at hplace'
      cases hplace'
      exact eq_append_of_descend hnames hdown
    have hname : ".." ∉ [name] := fun hmem => hup (List.mem_append_right _ hmem)
    rw [eq_append_of_descend hname hlast] at hheld
    exact ⟨_, mem_directoriesFrom hplace habove,
      mem_select_wildcard_iff.mpr ⟨name, mem_namesIn hway hheld, hmatches, hentry, rfl⟩⟩

end FileTree

end DesignTokens
