import DesignTokens.FileTree.Basic
import DesignTokens.Proofs.OrderedMap
/-!
# What file operations change

A tree is seen through what stands at its locations; the times of change are not looked at.  Every
operation that succeeds says what stands where afterwards.  Where a path leads depends on the
directories alone, and stays when more directories are made.
-/

set_option autoImplicit false

namespace DesignTokens.FileTree

/-- What stands at a location, without the time of its last change. -/
inductive Standing where
  | file (bytes : ByteArray)
  | directory

/-- An entry without the time of its last change. -/
def Standing.ofEntry : Entry → Standing
  | .file bytes _ => .file bytes
  | .directory _ => .directory

/-- What stands at a location of a tree. -/
def standing? (tree : FileTree) (location : Location) : Option Standing :=
  (tree.entry? location).map Standing.ofEntry

variable {tree after : FileTree} {location : Location} {path : Path}

theorem standing?_root (tree : FileTree) : tree.standing? [] = some .directory := by
  rw [standing?, entry?, if_pos rfl]
  rfl

/-- The file at a location is what stands there. -/
theorem fileAt?_eq_some_iff {bytes : ByteArray} :
    tree.fileAt? location = some bytes ↔ tree.standing? location = some (.file bytes) := by
  unfold fileAt? standing?
  cases tree.entry? location with
  | none => simp
  | some entry => cases entry <;> simp [Standing.ofEntry]

/-- The files of trees agree where the same stands. -/
theorem fileAt?_congr {other : FileTree}
    (h : tree.standing? location = other.standing? location) :
    tree.fileAt? location = other.fileAt? location := by
  apply Option.ext
  intro bytes
  rw [fileAt?_eq_some_iff, fileAt?_eq_some_iff, h]

theorem fileAt?_eq_none_of_directory (h : tree.standing? location = some .directory) :
    tree.fileAt? location = none := by
  rw [Option.eq_none_iff_forall_ne_some]
  intro bytes hfile
  rw [fileAt?_eq_some_iff, h] at hfile
  cases hfile

theorem standing?_of_held {entry : Entry} (h : tree.entry? location = some entry) :
    tree.standing? location = some (.ofEntry entry) := by
  rw [standing?, h]
  rfl

theorem standing?_of_held_none (h : tree.entry? location = none) :
    tree.standing? location = none := by
  rw [standing?, h]
  rfl

/-! ## Putting and removing -/

theorem standing?_put (tree : FileTree) (location : Location) (entry : Entry) (other : Location) :
    (tree.put location entry).standing? other =
      if location = other ∧ other ≠ [] then some (.ofEntry entry) else tree.standing? other := by
  unfold standing? entry? put
  simp only
  rw [OrderedMap.get?_set]
  by_cases hroot : other = []
  · simp [hroot]
  · by_cases hlocation : location = other <;> simp [hroot, hlocation]

theorem standing?_remove (tree : FileTree) (location other : Location) :
    (tree.remove location).standing? other =
      if location = other ∧ other ≠ [] then none else tree.standing? other := by
  unfold standing? entry? remove
  simp only
  rw [OrderedMap.get?_erase]
  by_cases hroot : other = []
  · simp [hroot]
  · by_cases hlocation : location = other <;> simp [hroot, hlocation]

/-- Noting the time at a directory changes nothing that stands. -/
theorem standing?_touchParent (tree : FileTree) (location other : Location) :
    (tree.touchParent location).standing? other = tree.standing? other := by
  unfold touchParent
  split
  · rename_i time hget
    rw [standing?_put]
    split
    · rename_i hother
      obtain ⟨heq, hroot⟩ := hother
      rw [standing?, entry?, if_neg hroot, ← heq, hget]
      rfl
    · rfl
  · rfl

theorem workingDirectory_touchParent (tree : FileTree) (location : Location) :
    (tree.touchParent location).workingDirectory = tree.workingDirectory := by
  unfold touchParent
  split <;> rfl

/-! ## Where paths lead -/

/-- A tree has at least the directories of another one. -/
structure Extends (tree after : FileTree) : Prop where
  workingDirectory : after.workingDirectory = tree.workingDirectory
  directories : ∀ location, tree.standing? location = some .directory →
    after.standing? location = some .directory

theorem Extends.refl (tree : FileTree) : Extends tree tree :=
  ⟨rfl, fun _ h => h⟩

theorem Extends.trans {first second third : FileTree} (h₁ : Extends first second)
    (h₂ : Extends second third) : Extends first third :=
  ⟨h₂.workingDirectory.trans h₁.workingDirectory,
    fun location h => h₂.directories location (h₁.directories location h)⟩

theorem descend_of_extends (h : Extends tree after) {start : Location} {names : List String}
    (hdescend : tree.descend start names = .ok location) :
    after.descend start names = .ok location := by
  induction names generalizing start with
  | nil => exact hdescend
  | cons name names ih =>
    rw [descend] at hdescend ⊢
    cases hentry : tree.entry? start with
    | none => simp [hentry] at hdescend
    | some entry =>
      cases entry with
      | file bytes time => simp [hentry] at hdescend
      | directory time =>
        have hstanding := h.directories start (standing?_of_held hentry)
        rw [standing?, Option.map_eq_some_iff] at hstanding
        obtain ⟨entry', hentry', hdirectory⟩ := hstanding
        cases entry' with
        | file bytes time' => cases hdirectory
        | directory time' =>
          simp only [hentry] at hdescend
          simp only [hentry']
          split at hdescend
          · cases hdescend
          · rename_i hsize
            rw [if_neg hsize]
            exact ih hdescend

/-- A path still leads where it led when there are more directories. -/
theorem Extends.locate (h : Extends tree after) (hlocate : tree.locate path = .ok location) :
    after.locate path = .ok location := by
  unfold FileTree.locate at hlocate ⊢
  rw [h.workingDirectory]
  split at hlocate
  · cases hlocate
  · split at hlocate
    · cases hlocate
    · rename_i hnul hsize
      rw [if_neg hnul, if_neg hsize]
      exact descend_of_extends h hlocate

theorem descend_append_name {name : String} (hname : name ≠ "..") {names : List String}
    {start : Location} (h : tree.descend start (names ++ [name]) = .ok location) :
    ∃ above, location = above ++ [name] := by
  induction names generalizing start with
  | nil =>
    rw [List.nil_append, descend] at h
    cases hentry : tree.entry? start with
    | none => simp [hentry] at h
    | some entry =>
      cases entry with
      | file bytes time => simp [hentry] at h
      | directory time =>
        simp only [hentry, if_neg hname] at h
        split at h
        · cases h
        · exact ⟨start, (Except.ok.inj h).symm⟩
  | cons first names ih =>
    rw [List.cons_append, descend] at h
    cases hentry : tree.entry? start with
    | none => simp [hentry] at h
    | some entry =>
      cases entry with
      | file bytes time => simp [hentry] at h
      | directory time =>
        simp only [hentry] at h
        split at h
        · cases h
        · exact ih h

/-- A path that ends in a name of its own leads to a location of that name. -/
theorem exists_append_of_locate (hname : endsInName path = true)
    (h : tree.locate path = .ok location) : ∃ above, location = above ++ [path.name] := by
  unfold endsInName at hname
  rw [Bool.and_eq_true, decide_eq_true_eq, decide_eq_true_eq] at hname
  obtain ⟨hempty, hup⟩ := hname
  have hne : path.names ≠ [] := by
    intro hnil
    apply hempty
    rw [Path.name, hnil]
    rfl
  have hsplit : path.names = path.names.dropLast ++ [path.name] := by
    rw [Path.name, List.getLastD_eq_getLast?, List.getLast?_eq_some_getLast hne, Option.getD_some]
    exact (List.dropLast_concat_getLast hne).symm
  unfold FileTree.locate at h
  split at h
  · cases h
  · split at h
    · cases h
    · rw [hsplit] at h
      exact descend_append_name hup h

/-! ## What operations change -/

/-- A location at which a path would have a new entry: the path leads there, and the location stands
in a directory. -/
structure Admits (tree : FileTree) (path : Path) (location : Location) : Prop where
  locate : tree.locate path = .ok location
  parent : tree.standing? location.dropLast = some .directory

theorem Admits.extends (h : Admits tree path location) (hextends : Extends tree after) :
    Admits after path location :=
  ⟨hextends.locate h.locate, hextends.directories _ h.parent⟩

theorem newLocation_eq_ok_iff :
    tree.newLocation path = .ok location ↔ Admits tree path location := by
  unfold newLocation
  constructor
  · intro h
    cases hlocate : tree.locate path with
    | error fault => simp [hlocate, bind, Except.bind] at h
    | ok found =>
      cases hentry : tree.entry? found.dropLast with
      | none => simp [hlocate, hentry, bind, Except.bind] at h
      | some entry =>
        cases entry with
        | file bytes time => simp [hlocate, hentry, bind, Except.bind] at h
        | directory time =>
          simp only [hlocate, hentry, bind, Except.bind, Except.ok.injEq] at h
          subst h
          exact ⟨hlocate, standing?_of_held hentry⟩
  · rintro ⟨hlocate, hparent⟩
    rw [standing?, Option.map_eq_some_iff] at hparent
    obtain ⟨entry, hentry, hdirectory⟩ := hparent
    cases entry with
    | file bytes time => cases hdirectory
    | directory time => simp [hlocate, hentry, bind, Except.bind]

/-- What stands after a change at one location. -/
structure Changes (tree after : FileTree) (location : Location) (now : Option Standing) : Prop where
  workingDirectory : after.workingDirectory = tree.workingDirectory
  standing : ∀ other, after.standing? other = if location = other then now else tree.standing? other

/-- Changing what is no directory keeps all directories. -/
theorem Changes.extends {now : Option Standing} (h : Changes tree after location now)
    (hold : tree.standing? location ≠ some .directory) : Extends tree after := by
  refine ⟨h.workingDirectory, fun other hdirectory => ?_⟩
  rw [h.standing, if_neg]
  · exact hdirectory
  · rintro rfl
    exact hold hdirectory

/-- A change that leaves no directory makes none. -/
theorem Changes.back {now : Option Standing} (h : Changes tree after location now)
    (hnow : now ≠ some .directory) : Extends after tree := by
  refine ⟨h.workingDirectory.symm, fun other hdirectory => ?_⟩
  rw [h.standing] at hdirectory
  split at hdirectory
  · exact absurd hdirectory hnow
  · exact hdirectory

theorem ne_root_of_standing? (h : tree.standing? location ≠ some .directory) : location ≠ [] := by
  rintro rfl
  exact h (standing?_root tree)

theorem changes_put (tree : FileTree) (h : location ≠ []) (entry : Entry) :
    Changes tree (tree.put location entry) location (some (.ofEntry entry)) := by
  refine ⟨rfl, fun other => ?_⟩
  rw [standing?_put]
  by_cases heq : location = other
  · rw [if_pos ⟨heq, heq ▸ h⟩, if_pos heq]
  · rw [if_neg (fun hboth => heq hboth.1), if_neg heq]

theorem changes_remove (tree : FileTree) (h : location ≠ []) :
    Changes tree (tree.remove location) location none := by
  refine ⟨rfl, fun other => ?_⟩
  rw [standing?_remove]
  by_cases heq : location = other
  · rw [if_pos ⟨heq, heq ▸ h⟩, if_pos heq]
  · rw [if_neg (fun hboth => heq hboth.1), if_neg heq]

theorem Changes.touchParent {now : Option Standing} (h : Changes tree after location now)
    (place : Location) : Changes tree (after.touchParent place) location now :=
  ⟨(workingDirectory_touchParent after place).trans h.workingDirectory,
    fun other => (standing?_touchParent after place other).trans (h.standing other)⟩

/-- A file is written where no directory stands, and nothing else changes. -/
theorem writeBytes_eq_ok {bytes : ByteArray} (h : tree.writeBytes path bytes = .ok after) :
    ∃ location, Admits tree path location ∧ tree.standing? location ≠ some .directory ∧
      Changes tree after location (some (.file bytes)) := by
  unfold writeBytes at h
  cases hnew : tree.newLocation path with
  | error fault => simp [hnew, bind, Except.bind] at h
  | ok location =>
    refine ⟨location, newLocation_eq_ok_iff.mp hnew, ?_⟩
    cases hentry : tree.entry? location with
    | none =>
      have hstanding := standing?_of_held_none hentry
      have hold : tree.standing? location ≠ some .directory := by simp [hstanding]
      simp only [hnew, hentry, bind, Except.bind, Except.ok.injEq] at h
      subst h
      exact ⟨hold, (changes_put tree (ne_root_of_standing? hold) _).touchParent location⟩
    | some entry =>
      cases entry with
      | directory time => simp [hnew, hentry, bind, Except.bind] at h
      | file old time =>
        have hstanding := standing?_of_held hentry
        have hold : tree.standing? location ≠ some .directory := by
          simp [hstanding, Standing.ofEntry]
        simp only [hnew, hentry, bind, Except.bind, Except.ok.injEq] at h
        subst h
        exact ⟨hold, changes_put tree (ne_root_of_standing? hold) _⟩

/-- Writing is refused only for what the tree shows. -/
theorem exists_writeBytes (bytes : ByteArray) (hadmits : Admits tree path location)
    (hold : tree.standing? location ≠ some .directory) :
    ∃ after, tree.writeBytes path bytes = .ok after := by
  have hnew := newLocation_eq_ok_iff.mpr hadmits
  unfold writeBytes
  cases hentry : tree.entry? location with
  | none => exact ⟨_, by simp only [hnew, hentry, bind, Except.bind]; rfl⟩
  | some entry =>
    cases entry with
    | directory time => exact absurd (standing?_of_held hentry) hold
    | file old time => exact ⟨_, by simp only [hnew, hentry, bind, Except.bind]; rfl⟩

/-- Removing a file leaves nothing at its location, and nothing else changes. -/
theorem removeFile_eq_ok (h : tree.removeFile path = .ok after) :
    ∃ location, tree.locate path = .ok location ∧
      tree.standing? location ≠ some .directory ∧ Changes tree after location none := by
  unfold removeFile at h
  cases hlocate : tree.locate path with
  | error fault => simp [hlocate, bind, Except.bind] at h
  | ok location =>
    refine ⟨location, rfl, ?_⟩
    cases hentry : tree.entry? location with
    | none => simp [hlocate, hentry, bind, Except.bind] at h
    | some entry =>
      cases entry with
      | directory time => simp [hlocate, hentry, bind, Except.bind] at h
      | file old time =>
        have hstanding := standing?_of_held hentry
        have hold : tree.standing? location ≠ some .directory := by
          simp [hstanding, Standing.ofEntry]
        simp only [hlocate, hentry, bind, Except.bind, Except.ok.injEq] at h
        subst h
        exact ⟨hold, (changes_remove tree (ne_root_of_standing? hold)).touchParent location⟩

/-- Removing is refused where no file stands. -/
theorem removeFile_eq_error {fault : FileFault} (hlocate : tree.locate path = .ok location)
    (h : tree.removeFile path = .error fault) : tree.fileAt? location = none := by
  unfold removeFile at h
  unfold fileAt?
  cases hentry : tree.entry? location with
  | none => rfl
  | some entry =>
    cases entry with
    | directory time => rfl
    | file old time => simp [hlocate, hentry, bind, Except.bind] at h

/-- A move takes a file to where no directory stands, and nothing else changes. -/
theorem replace_eq_ok {source target : Path} (h : tree.replace source target = .ok after) :
    ∃ old new bytes, tree.locate source = .ok old ∧ tree.standing? old = some (.file bytes) ∧
      Admits tree target new ∧ tree.standing? new ≠ some .directory ∧
      after.workingDirectory = tree.workingDirectory ∧
      ∀ other, after.standing? other =
        if new = other then some (.file bytes) else if old = other then none
        else tree.standing? other := by
  unfold replace at h
  cases hsource : tree.locate source with
  | error fault => simp [hsource, bind, Except.bind] at h
  | ok old =>
    cases hold : tree.entry? old with
    | none => simp [hsource, hold, bind, Except.bind] at h
    | some entry =>
      cases entry with
      | directory time => simp [hsource, hold, bind, Except.bind] at h
      | file bytes time =>
        cases htarget : tree.newLocation target with
        | error fault => simp [hsource, hold, htarget, bind, Except.bind] at h
        | ok new =>
          have hfile : tree.standing? old ≠ some .directory := by
            simp [standing?_of_held hold, Standing.ofEntry]
          have hmoved : ∀ hnew : tree.standing? new ≠ some .directory, ∀ other,
              (((tree.remove old).put new (.file bytes time)).touchParent new).standing? other =
                if new = other then some (.file bytes) else if old = other then none
                else tree.standing? other := by
            intro hnew other
            rw [((changes_put (tree.remove old) (ne_root_of_standing? hnew) _).touchParent
                new).standing, (changes_remove tree (ne_root_of_standing? hfile)).standing]
            rfl
          refine ⟨old, new, bytes, rfl, standing?_of_held hold,
            newLocation_eq_ok_iff.mp htarget, ?_⟩
          cases hnew : tree.entry? new with
          | none =>
            have hfree : tree.standing? new ≠ some .directory := by
              simp [standing?_of_held_none hnew]
            simp only [hsource, hold, htarget, hnew, bind, Except.bind, Except.ok.injEq] at h
            subst h
            exact ⟨hfree, workingDirectory_touchParent _ _, hmoved hfree⟩
          | some entry =>
            cases entry with
            | directory time' => simp [hsource, hold, htarget, hnew, bind, Except.bind] at h
            | file bytes' time' =>
              have hfree : tree.standing? new ≠ some .directory := by
                simp [standing?_of_held hnew, Standing.ofEntry]
              simp only [hsource, hold, htarget, hnew, bind, Except.bind, Except.ok.injEq] at h
              subst h
              exact ⟨hfree, workingDirectory_touchParent _ _, hmoved hfree⟩

/-! ## Making directories -/

/-- Directories may have been made; the files are the same. -/
structure Grows (tree after : FileTree) : Prop where
  extended : Extends tree after
  files : ∀ location, after.fileAt? location = tree.fileAt? location

theorem Grows.refl (tree : FileTree) : Grows tree tree :=
  ⟨.refl tree, fun _ => rfl⟩

theorem Grows.trans {first second third : FileTree} (h₁ : Grows first second)
    (h₂ : Grows second third) : Grows first third :=
  ⟨h₁.extended.trans h₂.extended,
    fun location => (h₂.files location).trans (h₁.files location)⟩

theorem Grows.of_makeDirectory (h : tree.makeDirectory path = .ok after) : Grows tree after := by
  unfold makeDirectory at h
  by_cases hnames : path.names = []
  · simp [hnames] at h
  · rw [if_neg hnames] at h
    cases hnew : tree.newLocation path with
    | error fault => simp [hnew, bind, Except.bind] at h
    | ok location =>
      cases hentry : tree.entry? location with
      | some entry => simp [hnew, hentry, bind, Except.bind] at h
      | none =>
        have hstanding := standing?_of_held_none hentry
        have hfree : tree.standing? location ≠ some .directory := by simp [hstanding]
        simp only [hnew, hentry, bind, Except.bind, Except.ok.injEq] at h
        subst h
        have hchanges := (changes_put tree (ne_root_of_standing? hfree)
          (.directory tree.clock)).touchParent location
        refine ⟨hchanges.extends hfree, fun other => ?_⟩
        by_cases heq : location = other
        · subst heq
          have hbefore : tree.fileAt? location = none := by
            rw [fileAt?, hentry]
          rw [hbefore]
          apply fileAt?_eq_none_of_directory
          rw [hchanges.standing, if_pos rfl]
          rfl
        · exact fileAt?_congr (by rw [hchanges.standing, if_neg heq])

theorem Grows.of_ensureDirectory (h : tree.ensureDirectory path = .ok after) :
    Grows tree after := by
  unfold ensureDirectory at h
  cases hmade : tree.makeDirectory path with
  | ok made =>
    simp only [hmade, Except.ok.injEq] at h
    subst h
    exact .of_makeDirectory hmade
  | error fault =>
    simp only [hmade] at h
    split at h
    · rw [Except.ok.injEq] at h
      subst h
      exact .refl tree
    · cases h

/-- Making directories keeps all files, also when it is refused half way. -/
theorem grows_makeDirectories (tree : FileTree) (path : Path) :
    Grows tree (tree.makeDirectories path).1 := by
  fun_induction makeDirectories tree path with
  | case1 path made hmade => exact .of_makeDirectory hmade
  | case2 path hfault hnames => exact .refl tree
  | case3 path hfault hnames above fault habove ih =>
    rw [habove] at ih
    exact ih
  | case4 path hfault hnames above habove made hmade ih =>
    rw [habove] at ih
    exact ih.trans (.of_ensureDirectory hmade)
  | case5 path hfault hnames above habove fault hrefused ih =>
    rw [habove] at ih
    exact ih
  | case6 path fault hfault hmade hdirectory => exact .refl tree
  | case7 path fault hfault hmade hdirectory => exact .refl tree

end DesignTokens.FileTree
