import DesignTokens.Proofs.FileTree.Operations
/-!
# Places of paths

A path that leads anywhere leads to the place that its names alone tell, so that all trees with one
working directory agree on it.  What stands at that place and is no directory has the path's last
name.  An operation changes no file, not even the time of its last change, but those at the places
of its paths.
-/

set_option autoImplicit false

namespace DesignTokens.FileTree

variable {tree after : FileTree} {location : Location} {path : Path}

/-! ## The place of a path -/

theorem eq_foldl_of_descend {names : List String} {start : Location}
    (h : tree.descend start names = .ok location) :
    location = names.foldl
      (fun location name => if name = ".." then location.dropLast else location ++ [name]) start := by
  induction names generalizing start with
  | nil => exact (Except.ok.inj h).symm
  | cons name names ih =>
    rw [descend] at h
    cases hentry : tree.entry? start with
    | none => simp [hentry] at h
    | some entry =>
      cases entry with
      | file bytes time => simp [hentry] at h
      | directory time =>
        simp only [hentry] at h
        split at h
        · cases h
        · exact ih h

/-- A path leads nowhere but to its place. -/
theorem eq_normalize_of_locate (h : tree.locate path = .ok location) :
    location = tree.normalize path := by
  unfold locate at h
  split at h
  · cases h
  · split at h
    · cases h
    · exact eq_foldl_of_descend h

/-- The place of a path hangs on the working directory alone. -/
theorem Extends.normalize (h : Extends tree after) (path : Path) :
    after.normalize path = tree.normalize path := by
  unfold FileTree.normalize
  rw [h.workingDirectory]

theorem Admits.eq_normalize (h : Admits tree path location) : location = tree.normalize path :=
  eq_normalize_of_locate h.locate

/-! ## The way to the working directory -/

/-- The working directory stands, with every directory above it. -/
def Stands (tree : FileTree) : Prop :=
  ∀ above, above <+: tree.workingDirectory → tree.standing? above = some .directory

theorem Stands.extends (h : Stands tree) (hextends : Extends tree after) : Stands after := by
  intro above hway
  rw [hextends.workingDirectory] at hway
  exact hextends.directories above (h above hway)

/-- From a place whose way is made of directories, names lead to another such place, or to a new
name in one. -/
theorem standing_or_append_of_descend {names : List String} {start : Location}
    (hstart : ∀ above, above <+: start → tree.standing? above = some .directory)
    (h : tree.descend start names = .ok location) :
    tree.standing? location = some .directory ∨
      ∃ first last above, names = first ++ [last] ∧ location = above ++ [last] := by
  induction names generalizing start with
  | nil => exact .inl (Except.ok.inj h ▸ hstart start List.prefix_rfl)
  | cons name names ih =>
    rw [descend] at h
    cases hentry : tree.entry? start with
    | none => simp [hentry] at h
    | some entry =>
      cases entry with
      | file bytes time => simp [hentry] at h
      | directory time =>
        simp only [hentry] at h
        split at h
        · cases h
        · by_cases hup : name = ".."
          · rw [if_pos hup] at h
            refine (ih (fun above hway => ?_) h).imp_right ?_
            · exact hstart above (hway.trans (List.dropLast_prefix start))
            · rintro ⟨first, last, above, rfl, hlocation⟩
              exact ⟨name :: first, last, above, rfl, hlocation⟩
          · rw [if_neg hup] at h
            cases names with
            | nil => exact .inr ⟨[], name, start, rfl, (Except.ok.inj h).symm⟩
            | cons second names =>
              have hnext : tree.standing? (start ++ [name]) = some .directory := by
                rw [descend] at h
                cases hfound : tree.entry? (start ++ [name]) with
                | none => simp [hfound] at h
                | some found =>
                  cases found with
                  | file bytes time' => simp [hfound] at h
                  | directory time' => exact standing?_of_held hfound
              refine (ih (fun above hway => ?_) h).imp_right ?_
              · cases List.prefix_concat_iff.mp hway with
                | inl heq => exact heq ▸ hnext
                | inr hway => exact hstart above hway
              · rintro ⟨first, last, above, heq, hlocation⟩
                exact ⟨name :: first, last, above, by rw [heq]; rfl, hlocation⟩

/-- What is no directory stands under the last name of a path that leads there. -/
theorem Stands.exists_append_of_locate (h : Stands tree) (hlocate : tree.locate path = .ok location)
    (hfree : tree.standing? location ≠ some .directory) :
    ∃ above, location = above ++ [path.name] := by
  have hstart : ∀ above, above <+: (if path.isAbsolute then [] else tree.workingDirectory) →
      tree.standing? above = some .directory := by
    intro above hway
    split at hway
    · rw [List.prefix_nil.mp hway]
      exact standing?_root tree
    · exact h above hway
  unfold locate at hlocate
  split at hlocate
  · cases hlocate
  · split at hlocate
    · cases hlocate
    · cases standing_or_append_of_descend hstart hlocate with
      | inl hdirectory => exact absurd hdirectory hfree
      | inr hlast =>
        obtain ⟨first, last, above, hnames, hlocation⟩ := hlast
        refine ⟨above, ?_⟩
        rw [hlocation, Path.name, hnames, List.getLastD_concat]

/-! ## Files with their times -/

/-- The file at a location, with the time of its last change. -/
def datedFile? (tree : FileTree) (location : Location) : Option (ByteArray × Int) :=
  match tree.entry? location with
  | some (.file bytes changed) => some (bytes, changed)
  | _ => none

theorem fileAt?_eq_map (tree : FileTree) (location : Location) :
    tree.fileAt? location = (tree.datedFile? location).map Prod.fst := by
  unfold fileAt? datedFile?
  split <;> simp_all

theorem datedFile?_eq_none (h : tree.fileAt? location = none) : tree.datedFile? location = none := by
  rw [fileAt?_eq_map, Option.map_eq_none_iff] at h
  exact h

theorem fileAt?_of_datedFile? (h : after.datedFile? location = tree.datedFile? location) :
    after.fileAt? location = tree.fileAt? location := by
  rw [fileAt?_eq_map, fileAt?_eq_map, h]

/-- The bytes of a path are those of the file that it leads to. -/
theorem readBytes_eq_ok_iff {bytes : ByteArray} :
    tree.readBytes path = .ok bytes ↔
      ∃ location, tree.locate path = .ok location ∧ tree.fileAt? location = some bytes := by
  unfold readBytes stat fileAt?
  cases hlocate : tree.locate path with
  | error fault => simp [bind, Except.bind]
  | ok location =>
    cases hentry : tree.entry? location with
    | none => simp [hentry, bind, Except.bind]
    | some entry => cases entry <;> simp [hentry, bind, Except.bind]

/-- A path gives the bytes that it gave, as long as the file at its place is the same. -/
theorem Extends.readBytes (h : Extends tree after) {bytes : ByteArray}
    (hfile : after.fileAt? (tree.normalize path) = tree.fileAt? (tree.normalize path))
    (hread : tree.readBytes path = .ok bytes) : after.readBytes path = .ok bytes := by
  obtain ⟨location, hlocate, hbytes⟩ := readBytes_eq_ok_iff.mp hread
  rw [← eq_normalize_of_locate hlocate, hbytes] at hfile
  exact readBytes_eq_ok_iff.mpr ⟨location, h.locate hlocate, hfile⟩

theorem datedFile?_put_of_ne (tree : FileTree) (entry : Entry) {other : Location}
    (h : location ≠ other) : (tree.put location entry).datedFile? other = tree.datedFile? other := by
  unfold datedFile? entry? put
  simp only
  rw [OrderedMap.get?_set, if_neg h]

theorem datedFile?_remove_of_ne (tree : FileTree) {other : Location} (h : location ≠ other) :
    (tree.remove location).datedFile? other = tree.datedFile? other := by
  unfold datedFile? entry? remove
  simp only
  rw [OrderedMap.get?_erase, if_neg h]

/-- Noting the time at a directory changes no file. -/
theorem datedFile?_touchParent (tree : FileTree) (location other : Location) :
    (tree.touchParent location).datedFile? other = tree.datedFile? other := by
  unfold touchParent
  split
  · rename_i time hget
    by_cases heq : location.dropLast = other
    · subst heq
      unfold datedFile? entry? put
      simp only
      by_cases hroot : location.dropLast = []
      · rw [if_pos hroot, if_pos hroot]
      · rw [if_neg hroot, if_neg hroot, OrderedMap.get?_set, if_pos rfl, hget]
    · exact datedFile?_put_of_ne tree _ heq
  · rfl

/-- A new directory changes no file. -/
theorem datedFile?_put_directory (time : Int) (h : tree.entry? location = none)
    (other : Location) :
    (tree.put location (.directory time)).datedFile? other = tree.datedFile? other := by
  by_cases heq : location = other
  · subst heq
    have hroot : location ≠ [] := by
      rintro rfl
      rw [ entry?, if_pos rfl] at h
      cases h
    unfold datedFile?
    rw [h]
    unfold entry? put
    simp only
    rw [if_neg hroot, OrderedMap.get?_set, if_pos rfl]
  · exact datedFile?_put_of_ne tree _ heq

/-- Writing changes no file but the one at the place of its path. -/
theorem datedFile?_writeBytes {bytes : ByteArray} (h : tree.writeBytes path bytes = .ok after)
    {other : Location} (hother : tree.normalize path ≠ other) :
    after.datedFile? other = tree.datedFile? other := by
  unfold writeBytes at h
  cases hnew : tree.newLocation path with
  | error fault => simp [hnew, bind, Except.bind] at h
  | ok location =>
    rw [← (newLocation_eq_ok_iff.mp hnew).eq_normalize] at hother
    cases hentry : tree.entry? location with
    | none =>
      simp only [hnew, hentry, bind, Except.bind, Except.ok.injEq] at h
      rw [← h, datedFile?_touchParent, datedFile?_put_of_ne tree _ hother]
    | some entry =>
      cases entry with
      | directory time => simp [hnew, hentry, bind, Except.bind] at h
      | file old time =>
        simp only [hnew, hentry, bind, Except.bind, Except.ok.injEq] at h
        rw [← h, datedFile?_put_of_ne tree _ hother]

/-- A written file has its bytes. -/
theorem fileAt?_writeBytes {bytes : ByteArray} (h : tree.writeBytes path bytes = .ok after) :
    after.fileAt? (tree.normalize path) = some bytes := by
  obtain ⟨location, hadmits, _, hchanges⟩ := writeBytes_eq_ok h
  rw [← hadmits.eq_normalize, fileAt?_eq_some_iff, hchanges.standing, if_pos rfl]

/-- Only a file can be removed. -/
theorem fileAt?_ne_none_of_removeFile (h : tree.removeFile path = .ok after) :
    tree.fileAt? (tree.normalize path) ≠ none := by
  unfold removeFile at h
  cases hlocate : tree.locate path with
  | error fault => simp [hlocate, bind, Except.bind] at h
  | ok location =>
    rw [← eq_normalize_of_locate hlocate, fileAt?]
    cases hentry : tree.entry? location with
    | none => simp [hlocate, hentry, bind, Except.bind] at h
    | some entry =>
      cases entry with
      | directory time => simp [hlocate, hentry, bind, Except.bind] at h
      | file bytes time => simp

/-- A move changes no file but those at the places of its two paths. -/
theorem datedFile?_replace {source target : Path} (h : tree.replace source target = .ok after)
    {other : Location} (hsource : tree.normalize source ≠ other)
    (htarget : tree.normalize target ≠ other) :
    after.datedFile? other = tree.datedFile? other := by
  unfold replace at h
  cases hold : tree.locate source with
  | error fault => simp [hold, bind, Except.bind] at h
  | ok old =>
    rw [← eq_normalize_of_locate hold] at hsource
    cases hentry : tree.entry? old with
    | none => simp [hold, hentry, bind, Except.bind] at h
    | some entry =>
      cases entry with
      | directory time => simp [hold, hentry, bind, Except.bind] at h
      | file bytes time =>
        cases hnew : tree.newLocation target with
        | error fault => simp [hold, hentry, hnew, bind, Except.bind] at h
        | ok new =>
          rw [← (newLocation_eq_ok_iff.mp hnew).eq_normalize] at htarget
          have hmoved : (((tree.remove old).put new (.file bytes time)).touchParent
              new).datedFile? other = tree.datedFile? other := by
            rw [datedFile?_touchParent, datedFile?_put_of_ne _ _ htarget,
              datedFile?_remove_of_ne _ hsource]
          simp only [hold, hentry, hnew, bind, Except.bind] at h
          split at h
          · cases h
          · rw [← Except.ok.inj h]
            exact hmoved

/-- A moved file has the bytes that it had, and none is left where it was. -/
theorem fileAt?_replace {source target : Path} (h : tree.replace source target = .ok after)
    (hne : tree.normalize source ≠ tree.normalize target) :
    after.fileAt? (tree.normalize target) = tree.fileAt? (tree.normalize source) ∧
      after.fileAt? (tree.normalize source) = none := by
  obtain ⟨old, new, bytes, hsource, hold, hadmits, _, _, hstanding⟩ := replace_eq_ok h
  rw [← eq_normalize_of_locate hsource, ← hadmits.eq_normalize] at hne ⊢
  constructor
  · rw [fileAt?_eq_some_iff.mpr hold, fileAt?_eq_some_iff, hstanding, if_pos rfl]
  · rw [Option.eq_none_iff_forall_ne_some]
    intro found hfound
    rw [fileAt?_eq_some_iff, hstanding, if_neg (Ne.symm hne), if_pos rfl] at hfound
    cases hfound

theorem datedFile?_makeDirectory (h : tree.makeDirectory path = .ok after) (other : Location) :
    after.datedFile? other = tree.datedFile? other := by
  unfold makeDirectory at h
  by_cases hnames : path.names = []
  · simp [hnames] at h
  · rw [if_neg hnames] at h
    cases hnew : tree.newLocation path with
    | error fault => simp [hnew, bind, Except.bind] at h
    | ok location =>
      cases hentry : tree.entry? location with
      | some entry => simp [hnew, hentry, bind, Except.bind] at h
      | none =>
        simp only [hnew, hentry, bind, Except.bind, Except.ok.injEq] at h
        rw [← h, datedFile?_touchParent, datedFile?_put_directory _ hentry]

theorem datedFile?_ensureDirectory (h : tree.ensureDirectory path = .ok after)
    (other : Location) : after.datedFile? other = tree.datedFile? other := by
  unfold ensureDirectory at h
  cases hmade : tree.makeDirectory path with
  | ok made =>
    simp only [hmade, Except.ok.injEq] at h
    exact h ▸ datedFile?_makeDirectory hmade other
  | error fault =>
    simp only [hmade] at h
    split at h
    · rw [Except.ok.inj h]
    · cases h

/-- Making directories changes no file. -/
theorem datedFile?_makeDirectories (tree : FileTree) (path : Path) (other : Location) :
    (tree.makeDirectories path).1.datedFile? other = tree.datedFile? other := by
  fun_induction makeDirectories tree path with
  | case1 path made hmade => exact datedFile?_makeDirectory hmade other
  | case2 path hfault hnames => rfl
  | case3 path hfault hnames above fault habove ih =>
    rw [habove] at ih
    exact ih
  | case4 path hfault hnames above habove made hmade ih =>
    rw [habove] at ih
    exact (datedFile?_ensureDirectory hmade other).trans ih
  | case5 path hfault hnames above habove fault hrefused ih =>
    rw [habove] at ih
    exact ih
  | case6 path fault hfault hmade hdirectory => rfl
  | case7 path fault hfault hmade hdirectory => rfl

end DesignTokens.FileTree
