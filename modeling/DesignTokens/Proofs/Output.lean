import DesignTokens.Output
import DesignTokens.Proofs.FileTree.Operations
import DesignTokens.Proofs.Lists
import Mathlib.Tactic.ByContra
/-!
# Output is written all or none

Writing that fails leaves every file as it was.  Up to the moves, the tree differs from the original
one at temporary files only, whose names are apart from all files there were and from all targets.
The moves change targets that the snapshots cover, so that restoring those leaves temporary files
again, and these are removed in any case.
-/

set_option autoImplicit false

namespace DesignTokens.Output

open FileTree

variable {original tree after : FileTree} {reserved : List String} {staged done : List Staged}

/-! ## Temporary files -/

/-- A temporary path leads to a location that had no file and is the location of no target. -/
structure Apart (original tree : FileTree) (reserved : List String) (temporary : Path)
    (location : Location) : Prop where
  locate : tree.locate temporary = .ok location
  absent : original.fileAt? location = none
  name : ∀ above, ∀ name ∈ reserved, location ≠ above ++ [name]

/-- A staged file has a temporary file apart, and a target with a reserved name of its own. -/
structure Prepared (original tree : FileTree) (reserved : List String) (staged : Staged) :
    Prop where
  temporary : ∃ location, Apart original tree reserved staged.temporary location
  endsInName : endsInName staged.target = true
  target : staged.target.name ∈ reserved

/-- A tree has the files of the original one, and beside them only the temporary files of what is
staged. -/
structure Beside (original : FileTree) (reserved : List String) (tree : FileTree)
    (staged : List Staged) : Prop where
  prepared : ∀ s ∈ staged, Prepared original tree reserved s
  files : ∀ location, tree.fileAt? location ≠ original.fileAt? location →
    ∃ s ∈ staged, tree.locate s.temporary = .ok location

theorem Prepared.extends {s : Staged} (h : Prepared original tree reserved s)
    (hextends : Extends tree after) : Prepared original after reserved s := by
  obtain ⟨⟨location, hlocate, habsent, hname⟩, hends, htarget⟩ := h
  exact ⟨⟨location, hextends.locate hlocate, habsent, hname⟩, hends, htarget⟩

/-- Nothing is staged at the start. -/
theorem beside_nil (tree : FileTree) (reserved : List String) : Beside tree reserved tree [] :=
  ⟨fun _ hmem => (by cases hmem), fun _ h => absurd rfl h⟩

/-- Changes at temporary files keep the other files as they were. -/
theorem Beside.of_extends (h : Beside original reserved tree staged) (hextends : Extends tree after)
    {more : List Staged} (hmore : ∀ s ∈ more, Prepared original after reserved s)
    (hfiles : ∀ location, after.fileAt? location ≠ tree.fileAt? location →
      ∃ s ∈ staged ++ more, after.locate s.temporary = .ok location) :
    Beside original reserved after (staged ++ more) := by
  refine ⟨fun s hmem => ?_, fun location hlocation => ?_⟩
  · cases List.mem_append.mp hmem with
    | inl hold => exact (h.prepared s hold).extends hextends
    | inr hnew => exact hmore s hnew
  · by_cases hsame : after.fileAt? location = tree.fileAt? location
    · rw [hsame] at hlocation
      obtain ⟨s, hmem, hlocate⟩ := h.files location hlocation
      exact ⟨s, List.mem_append_left _ hmem, hextends.locate hlocate⟩
    · exact hfiles location hsame

/-! ## Staging -/

theorem last_mem_names {location : Location} {name : String}
    (h : OrderedMap.get? tree.entries (location ++ [name]) ≠ none) : name ∈ tree.names := by
  obtain ⟨entry, hentry⟩ := Option.ne_none_iff_exists'.mp h
  have hmem := OrderedMap.mem_of_get?_eq_some hentry
  exact List.mem_map.mpr ⟨_, hmem, by simp⟩

theorem two_lt_length_freshName (taken : List String) (name : String) :
    2 < (freshName taken name).length := by
  have hstamped : ∀ zeros, 2 < (stampedName name zeros).length := by
    intro zeros
    have hdot : ".".length = 1 := by decide
    have hsuffix : ".tmp".length = 4 := by decide
    simp only [stampedName, String.length_append]
    omega
  unfold freshName
  simp only
  split
  · exact hstamped _
  · exact hstamped _

theorem name_temporaryFor (tree : FileTree) (reserved : List String) (target : Path) :
    (temporaryFor tree reserved target).name = freshName (reserved ++ tree.names) target.name := by
  simp [temporaryFor, Path.name]

/-- A temporary path ends in a name of its own. -/
theorem endsInName_temporaryFor (tree : FileTree) (reserved : List String) (target : Path) :
    FileTree.endsInName (temporaryFor tree reserved target) = true := by
  have hlength := two_lt_length_freshName (reserved ++ tree.names) target.name
  unfold FileTree.endsInName
  rw [name_temporaryFor, Bool.and_eq_true, decide_eq_true_eq, decide_eq_true_eq]
  constructor <;> (intro heq; rw [heq] at hlength; exact absurd hlength (by decide))

/-- The temporary file of a target is apart from what there is and from all targets. -/
theorem Beside.apart_temporaryFor (h : Beside original reserved tree staged) {target : Path}
    {location : Location}
    (hlocate : tree.locate (temporaryFor tree reserved target) = .ok location) :
    Apart original tree reserved (temporaryFor tree reserved target) location := by
  have hfresh := freshName_not_mem (reserved ++ tree.names) target.name
  rw [List.mem_append, not_or] at hfresh
  obtain ⟨above, rfl⟩ := exists_append_of_locate (endsInName_temporaryFor tree reserved target) hlocate
  rw [name_temporaryFor] at hlocate ⊢
  have hnone : tree.fileAt? (above ++ [freshName (reserved ++ tree.names) target.name]) = none := by
    have hentry : OrderedMap.get? tree.entries
        (above ++ [freshName (reserved ++ tree.names) target.name]) = none := by
      by_contra hsome
      exact hfresh.2 (last_mem_names hsome)
    rw [fileAt?, entry?, if_neg (by simp), hentry]
  refine ⟨hlocate, ?_, ?_⟩
  · by_contra hfile
    obtain ⟨s, hmem, htemporary⟩ := h.files _ (by rw [hnone]; exact fun heq => hfile heq.symm)
    obtain ⟨place, hplace, habsent, _⟩ := (h.prepared s hmem).temporary
    rw [htemporary, Except.ok.injEq] at hplace
    exact hfile (hplace ▸ habsent)
  · intro above' name hmem heq
    have hlast := (List.append_inj' heq rfl).2
    rw [List.cons.injEq] at hlast
    exact hfresh.1 (hlast.1 ▸ hmem)

/-- Making directories stages nothing. -/
theorem Beside.grow (h : Beside original reserved tree staged) (hgrows : Grows tree after) :
    Beside original reserved after staged := by
  have hmore := h.of_extends hgrows.extended (fun s hmem => absurd hmem List.not_mem_nil)
    fun location hchanged => absurd (hgrows.files location) hchanged
  rwa [List.append_nil] at hmore

/-- Writing at a location changes no file elsewhere. -/
theorem fileAt?_of_changes {location other : Location} {now : Option Standing}
    (h : Changes tree after location now) (hother : location ≠ other) :
    after.fileAt? other = tree.fileAt? other :=
  fileAt?_congr (by rw [h.standing, if_neg hother])

/-- There is no file where nothing is left. -/
theorem fileAt?_of_changes_none {location : Location} (h : Changes tree after location none) :
    after.fileAt? location = none := by
  rw [Option.eq_none_iff_forall_ne_some]
  intro bytes hfile
  rw [fileAt?_eq_some_iff, h.standing, if_pos rfl] at hfile
  cases hfile

/-- Creating a temporary file stages one more file. -/
theorem Beside.create (h : Beside original reserved tree staged) {target : Path} (path : String)
    {bytes : ByteArray} (hends : FileTree.endsInName target = true)
    (hreserved : target.name ∈ reserved)
    (hwrite : tree.writeBytes (temporaryFor tree reserved target) bytes = .ok after) :
    Beside original reserved after
      (staged ++ [⟨temporaryFor tree reserved target, target, path⟩]) := by
  obtain ⟨location, hadmits, hfree, hchanges⟩ := writeBytes_eq_ok hwrite
  have hextends := hchanges.extends hfree
  obtain ⟨hlocate, habsent, hname⟩ := h.apart_temporaryFor hadmits.locate
  refine h.of_extends hextends ?_ ?_
  · intro s hmem
    rw [List.mem_singleton.mp hmem]
    exact ⟨⟨location, hextends.locate hlocate, habsent, hname⟩, hends, hreserved⟩
  · intro other hother
    refine ⟨_, List.mem_append_right _ List.mem_cons_self, ?_⟩
    by_cases heq : location = other
    · exact heq ▸ hextends.locate hlocate
    · exact absurd (fileAt?_of_changes hchanges heq) hother

/-- Writing a temporary file stages nothing more. -/
theorem Beside.rewrite (h : Beside original reserved tree staged) {s : Staged} (hs : s ∈ staged)
    {bytes : ByteArray} (hwrite : tree.writeBytes s.temporary bytes = .ok after) :
    Beside original reserved after staged := by
  obtain ⟨location, hadmits, hfree, hchanges⟩ := writeBytes_eq_ok hwrite
  have hextends := hchanges.extends hfree
  have hmore := h.of_extends hextends (fun s hmem => absurd hmem List.not_mem_nil)
    fun other hother => by
      refine ⟨s, List.mem_append_left _ hs, ?_⟩
      by_cases heq : location = other
      · exact heq ▸ hextends.locate hadmits.locate
      · exact absurd (fileAt?_of_changes hchanges heq) hother
  rwa [List.append_nil] at hmore

variable {directory : Path}

/-- Staging one file, whether it succeeds or is refused, leaves the tree beside the original. -/
theorem Beside.stage (h : Beside original reserved tree staged) (refuses : Refusals) (position : Nat)
    {file : OutputFile} (hends : FileTree.endsInName (targetOf directory file) = true)
    (hreserved : (targetOf directory file).name ∈ reserved) :
    Beside original reserved (stage refuses directory reserved position tree file).tree
      (staged ++ (stage refuses directory reserved position tree file).staged) := by
  have hgrows := grows_makeDirectories tree (targetOf directory file).parent
  unfold Output.stage
  simp only
  split
  · rw [List.append_nil]
    exact h
  · split
    · rename_i made fault hmade
      rw [hmade] at hgrows
      rw [List.append_nil]
      exact h.grow hgrows
    · rename_i made hmade
      rw [hmade] at hgrows
      have hmade := h.grow hgrows
      split
      · rw [List.append_nil]
        exact hmade
      · split
        · rw [List.append_nil]
          exact hmade
        · rename_i created hcreated
          have hstaged := hmade.create file.path hends hreserved hcreated
          split
          · exact hstaged
          · split
            · exact hstaged
            · rename_i complete hcomplete
              exact hstaged.rewrite (List.mem_append_right _ List.mem_cons_self) hcomplete

/-- Staging files up to the first refusal leaves the tree beside the original. -/
theorem Beside.stageAll (h : Beside original reserved tree staged) (refuses : Refusals)
    (position : Nat)    {files : List OutputFile}
    (hfiles : ∀ file ∈ files, FileTree.endsInName (targetOf directory file) = true ∧
      (targetOf directory file).name ∈ reserved) :
    Beside original reserved (stageAll refuses directory reserved position tree files).tree
      (staged ++ (stageAll refuses directory reserved position tree files).staged) := by
  induction files generalizing position tree staged with
  | nil =>
    rw [Output.stageAll, List.append_nil]
    exact h
  | cons file rest ih =>
    obtain ⟨hends, hreserved⟩ := hfiles file List.mem_cons_self
    have hfirst := h.stage refuses position hends hreserved
    rw [Output.stageAll]
    simp only
    split
    · exact hfirst
    · rw [← List.append_assoc]
      exact ih hfirst (position + 1) fun other hmem => hfiles other (List.mem_cons_of_mem _ hmem)

/-! ## Snapshots -/

/-- A snapshot has the bytes of the file that its path leads to, or none if there is no file. -/
def Snapshot.Holds (tree : FileTree) (snapshot : Snapshot) : Prop :=
  ∀ location, tree.locate snapshot.target = .ok location →
    snapshot.bytes = tree.fileAt? location

theorem stat_of_locate {path : Path} {location : Location}
    (h : tree.locate path = .ok location) :
    tree.stat path = match tree.entry? location with
      | some entry => .ok entry
      | none => .error .noEntry := by
  rw [stat, h]
  rfl

theorem fileAt?_of_hasFile_eq_false {path : Path} {location : Location}
    (hfile : tree.hasFile path = false) (h : tree.locate path = .ok location) :
    tree.fileAt? location = none := by
  rw [hasFile, stat_of_locate h] at hfile
  unfold fileAt?
  cases hentry : tree.entry? location with
  | none => rfl
  | some entry =>
    cases entry with
    | directory time => rfl
    | file bytes time => simp [hentry, Entry.isDirectory] at hfile

theorem fileAt?_of_readBytes {path : Path} {location : Location} {bytes : ByteArray}
    (hread : tree.readBytes path = .ok bytes) (h : tree.locate path = .ok location) :
    tree.fileAt? location = some bytes := by
  unfold readBytes at hread
  rw [stat_of_locate h] at hread
  unfold fileAt?
  cases hentry : tree.entry? location with
  | none => simp [hentry, bind, Except.bind] at hread
  | some entry =>
    cases entry with
    | directory time => simp [hentry, bind, Except.bind] at hread
    | file old time =>
      simp only [hentry, bind, Except.bind, Except.ok.injEq] at hread
      rw [hread]

theorem fileAt?_of_hasEntry_eq_false {path : Path} {location : Location}
    (hentry : tree.hasEntry path = false) (h : tree.locate path = .ok location) :
    tree.fileAt? location = none := by
  rw [hasEntry, stat_of_locate h] at hentry
  unfold fileAt?
  cases hfound : tree.entry? location with
  | none => rfl
  | some entry => simp [hfound, Except.isOk, Except.toBool] at hentry

/-- Every staged file has a snapshot of what its target holds. -/
theorem snapshots_hold {refuses : Refusals} {position : Nat} {held : List Snapshot}
    (h : snapshots refuses tree position staged = .ok held) :
    List.Forall₂ (fun s snapshot => snapshot.target = s.target ∧ snapshot.Holds tree)
      staged held := by
  induction staged generalizing position held with
  | nil =>
    rw [snapshots, Except.ok.injEq] at h
    subst h
    exact .nil
  | cons s rest ih =>
    rw [snapshots] at h
    split at h
    · cases h
    · rename_i bytes hbytes
      cases hrest : snapshots refuses tree (position + 1) rest with
      | error fault => simp [hrest, Except.map] at h
      | ok later =>
        simp only [hrest, Except.map, Except.ok.injEq] at h
        subst h
        refine .cons ⟨rfl, fun location hlocate => ?_⟩ (ih hrest)
        split at hbytes
        · split at hbytes
          · cases hbytes
          · cases hread : tree.readBytes s.target with
            | error fault => simp [hread, Except.map] at hbytes
            | ok found =>
              simp only [hread, Except.map, Except.ok.injEq] at hbytes
              rw [← hbytes]
              exact (fileAt?_of_readBytes hread hlocate).symm
        · rename_i hfile
          rw [Except.ok.injEq] at hbytes
          rw [← hbytes]
          exact (fileAt?_of_hasFile_eq_false (Bool.eq_false_iff.mpr hfile) hlocate).symm

/-! ## Moves -/

/-- The staged files that were moved, and all that the moves have changed: what their targets and
their temporary paths lead to.  No directory comes or goes. -/
structure Moved (tree after : FileTree) (done : List Staged) : Prop where
  extended : Extends tree after
  back : Extends after tree
  targets : ∀ s ∈ done, ∃ location, Admits tree s.target location ∧
    tree.standing? location ≠ some .directory
  files : ∀ location, after.fileAt? location ≠ tree.fileAt? location →
    ∃ s ∈ done, tree.locate s.target = .ok location ∨ tree.locate s.temporary = .ok location

theorem Moved.refl (tree : FileTree) : Moved tree tree [] :=
  ⟨.refl tree, .refl tree, fun _ hmem => (by cases hmem), fun _ h => absurd rfl h⟩

/-- A single move. -/
theorem Moved.of_replace {s : Staged} (h : tree.replace s.temporary s.target = .ok after) :
    Moved tree after [s] := by
  obtain ⟨old, new, bytes, hsource, hold, hadmits, hfree, hworking, hstanding⟩ := replace_eq_ok h
  have hkeep : ∀ other, tree.standing? other = some .directory →
      after.standing? other = some .directory := by
    intro other hdirectory
    have hnew : new ≠ other := fun heq => hfree (heq ▸ hdirectory)
    have hother : old ≠ other := by
      rintro rfl
      rw [hold] at hdirectory
      cases hdirectory
    rw [hstanding, if_neg hnew, if_neg hother]
    exact hdirectory
  have hback : ∀ other, after.standing? other = some .directory →
      tree.standing? other = some .directory := by
    intro other hdirectory
    rw [hstanding] at hdirectory
    split at hdirectory
    · cases hdirectory
    · split at hdirectory
      · cases hdirectory
      · exact hdirectory
  refine ⟨⟨hworking, hkeep⟩, ⟨hworking.symm, hback⟩, ?_, ?_⟩
  · intro other hmem
    rw [List.mem_singleton.mp hmem]
    exact ⟨new, hadmits, hfree⟩
  · intro other hother
    refine ⟨s, List.mem_cons_self, ?_⟩
    by_cases hnew : new = other
    · exact .inl (hnew ▸ hadmits.locate)
    · by_cases hold' : old = other
      · exact .inr (hold' ▸ hsource)
      · exact absurd (fileAt?_congr (by rw [hstanding, if_neg hnew, if_neg hold'])) hother

/-- Moves after moves. -/
theorem Moved.trans {middle : FileTree} {more : List Staged} (h₁ : Moved tree middle done)
    (h₂ : Moved middle after more) : Moved tree after (done ++ more) := by
  refine ⟨h₁.extended.trans h₂.extended, h₂.back.trans h₁.back, ?_, ?_⟩
  · intro s hmem
    cases List.mem_append.mp hmem with
    | inl hdone => exact h₁.targets s hdone
    | inr hmore =>
      obtain ⟨location, hadmits, hfree⟩ := h₂.targets s hmore
      exact ⟨location, hadmits.extends h₁.back,
        fun hdirectory => hfree (h₁.extended.directories location hdirectory)⟩
  · intro location hlocation
    by_cases hsame : after.fileAt? location = middle.fileAt? location
    · rw [hsame] at hlocation
      obtain ⟨s, hmem, hlocate⟩ := h₁.files location hlocation
      exact ⟨s, List.mem_append_left _ hmem, hlocate⟩
    · obtain ⟨s, hmem, hlocate⟩ := h₂.files location hsame
      refine ⟨s, List.mem_append_right _ hmem, ?_⟩
      exact hlocate.imp h₁.back.locate h₁.back.locate

/-- The moves up to a refusal, or all. -/
theorem moved_replaceAll (refuses : Refusals) (position : Nat) (tree : FileTree)
    (staged : List Staged) :
    Moved tree (replaceAll refuses position tree staged).1
      (staged.take (replaceAll refuses position tree staged).2.1) := by
  induction staged generalizing position tree with
  | nil => exact .refl tree
  | cons s rest ih =>
    rw [replaceAll]
    simp only
    split
    · exact .refl tree
    · rename_i moved hmoved
      have hfirst : Moved tree moved [s] := by
        split at hmoved
        · cases hmoved
        · exact .of_replace hmoved
      exact hfirst.trans (ih (position + 1) moved)

/-! ## Restoring -/

/-- A snapshot can be put back: its target is where a file may stand. -/
def Snapshot.Restorable (tree : FileTree) (snapshot : Snapshot) : Prop :=
  ∃ location, Admits tree snapshot.target location ∧ tree.standing? location ≠ some .directory

/-- Restoring gives the location of a target the file that the snapshot has, and changes nothing
else. -/
theorem restoreOne_spec {snapshot : Snapshot} {location : Location}
    (hadmits : Admits tree snapshot.target location)
    (hfree : tree.standing? location ≠ some .directory) :
    Extends tree (restoreOne tree snapshot).1 ∧ Extends (restoreOne tree snapshot).1 tree ∧
      ∀ other, (restoreOne tree snapshot).1.fileAt? other =
        if location = other then snapshot.bytes else tree.fileAt? other := by
  have hsame : tree.fileAt? location = none → ∀ other, tree.fileAt? other =
      if location = other then none else tree.fileAt? other := by
    intro hnone other
    split
    · rename_i heq
      rw [← heq, hnone]
    · rfl
  unfold restoreOne
  cases hbytes : snapshot.bytes with
  | some bytes =>
    obtain ⟨after, hwrite⟩ := exists_writeBytes bytes hadmits hfree
    obtain ⟨place, hplace, _, hchanges⟩ := writeBytes_eq_ok hwrite
    have heq : location = place := Except.ok.inj (hadmits.locate.symm.trans hplace.locate)
    subst heq
    simp only [hwrite]
    refine ⟨hchanges.extends hfree, hchanges.back (by simp), fun other => ?_⟩
    split
    · rename_i heq
      rw [← heq, fileAt?_eq_some_iff, hchanges.standing, if_pos rfl]
    · rename_i hne
      exact fileAt?_of_changes hchanges hne
  | none =>
    cases hentry : tree.hasEntry snapshot.target with
    | false =>
      simp only [Bool.false_eq_true, if_false]
      exact ⟨.refl tree, .refl tree, hsame (fileAt?_of_hasEntry_eq_false hentry hadmits.locate)⟩
    | true =>
      simp only [if_true]
      cases hremove : tree.removeFile snapshot.target with
      | error fault =>
        exact ⟨.refl tree, .refl tree, hsame (removeFile_eq_error hadmits.locate hremove)⟩
      | ok after =>
        obtain ⟨place, hplace, _, hchanges⟩ := removeFile_eq_ok hremove
        have heq : location = place := Except.ok.inj (hadmits.locate.symm.trans hplace)
        subst heq
        simp only
        refine ⟨hchanges.extends hfree, hchanges.back (by simp), fun other => ?_⟩
        split
        · rename_i heq
          rw [← heq]
          exact fileAt?_of_changes_none hchanges
        · rename_i hne
          exact fileAt?_of_changes hchanges hne

/-- After restoring, what is still changed was changed before and is no target of a snapshot. -/
theorem restore_spec {moved : FileTree} (hextended : Extends tree moved)
    (hback : Extends moved tree) {held : List Snapshot}
    (hheld : ∀ snapshot ∈ held, snapshot.Holds tree ∧ snapshot.Restorable tree) :
    Extends tree (restore moved held).1 ∧
      ∀ location, (restore moved held).1.fileAt? location ≠ tree.fileAt? location →
        moved.fileAt? location ≠ tree.fileAt? location ∧
          ∀ snapshot ∈ held, tree.locate snapshot.target ≠ .ok location := by
  induction held generalizing moved with
  | nil =>
    exact ⟨hextended, fun location hchanged =>
      ⟨hchanged, fun _ hmem => absurd hmem List.not_mem_nil⟩⟩
  | cons snapshot rest ih =>
    obtain ⟨hholds, place, hadmits, hfree⟩ := hheld snapshot List.mem_cons_self
    obtain ⟨hextends, hreturns, hfiles⟩ := restoreOne_spec (hadmits.extends hextended)
      fun hdirectory => hfree (hback.directories place hdirectory)
    obtain ⟨hfinal, hchanged⟩ := ih (hextended.trans hextends) (hreturns.trans hback)
      fun s hmem => hheld s (List.mem_cons_of_mem _ hmem)
    rw [restore]
    refine ⟨hfinal, fun location hlocation => ?_⟩
    obtain ⟨hnow, hrest⟩ := hchanged location hlocation
    rw [hfiles] at hnow
    have hplace : place ≠ location := by
      intro heq
      rw [if_pos heq, hholds place hadmits.locate, heq] at hnow
      exact hnow rfl
    rw [if_neg hplace] at hnow
    refine ⟨hnow, fun s hmem => ?_⟩
    cases List.mem_cons.mp hmem with
    | inl heq =>
      intro hlocate
      rw [heq, hadmits.locate] at hlocate
      exact hplace (Except.ok.inj hlocate)
    | inr hmem => exact hrest s hmem

/-! ## Removing temporary files -/

/-- Removing the temporary files leaves the files of the original tree. -/
theorem Beside.fileAt?_discard (h : Beside original reserved tree staged) (location : Location) :
    (discard tree staged).fileAt? location = original.fileAt? location := by
  induction staged generalizing tree with
  | nil =>
    rw [discard]
    by_contra hchanged
    obtain ⟨s, hmem, _⟩ := h.files location hchanged
    cases hmem
  | cons s rest ih =>
    obtain ⟨place, hplace, habsent, _⟩ := (h.prepared s List.mem_cons_self).temporary
    rw [discard]
    cases hremove : tree.removeFile s.temporary with
    | error fault =>
      have hnone := removeFile_eq_error hplace hremove
      refine ih ⟨fun other hmem => h.prepared other (List.mem_cons_of_mem _ hmem), ?_⟩
      intro other hchanged
      obtain ⟨s', hmem, hlocate⟩ := h.files other hchanged
      cases List.mem_cons.mp hmem with
      | inl heq =>
        rw [heq, hplace, Except.ok.injEq] at hlocate
        rw [← hlocate, hnone, habsent] at hchanged
        exact absurd rfl hchanged
      | inr hmem => exact ⟨s', hmem, hlocate⟩
    | ok after =>
      obtain ⟨place', hplace', hfree, hchanges⟩ := removeFile_eq_ok hremove
      have heq : place = place' := Except.ok.inj (hplace.symm.trans hplace')
      subst heq
      have hextends := hchanges.extends hfree
      refine ih ⟨fun other hmem =>
        (h.prepared other (List.mem_cons_of_mem _ hmem)).extends hextends, ?_⟩
      intro other hchanged
      by_cases hother : place = other
      · have hnone : after.fileAt? other = none := by
          rw [Option.eq_none_iff_forall_ne_some]
          intro bytes hfile
          rw [fileAt?_eq_some_iff, hchanges.standing, if_pos hother] at hfile
          cases hfile
        rw [hnone, ← hother, habsent] at hchanged
        exact absurd rfl hchanged
      · rw [fileAt?_of_changes hchanges hother] at hchanged
        obtain ⟨s', hmem, hlocate⟩ := h.files other hchanged
        cases List.mem_cons.mp hmem with
        | inl heq =>
          rw [heq, hplace, Except.ok.injEq] at hlocate
          exact absurd hlocate hother
        | inr hmem => exact ⟨s', hmem, hextends.locate hlocate⟩

/-! ## All or none -/

/-- Moves that are undone from their snapshots leave temporary files at most. -/
theorem Beside.undo (h : Beside original reserved tree staged) {moved : FileTree}
    (hdone : ∀ s ∈ done, s ∈ staged) (hmoved : Moved tree moved done) {held : List Snapshot}
    (hheld : List.Forall₂ (fun s snapshot => snapshot.target = s.target ∧ snapshot.Holds tree)
      done held) : Beside original reserved (restore moved held.reverse).1 staged := by
  have hrestorable : ∀ snapshot ∈ held.reverse, snapshot.Holds tree ∧ snapshot.Restorable tree := by
    intro snapshot hmem
    obtain ⟨s, hs, htarget, hholds⟩ :=
      Lists.exists_right_of_forall₂ hheld.flip (List.mem_reverse.mp hmem)
    obtain ⟨location, hadmits, hfree⟩ := hmoved.targets s hs
    exact ⟨hholds, location, htarget ▸ hadmits, hfree⟩
  obtain ⟨hextends, hchanged⟩ := restore_spec hmoved.extended hmoved.back hrestorable
  have hrest := h.of_extends hextends (fun s hmem => absurd hmem List.not_mem_nil) ?_
  · rwa [List.append_nil] at hrest
  · intro location hlocation
    obtain ⟨hnow, htargets⟩ := hchanged location hlocation
    obtain ⟨s, hs, hlocate⟩ := hmoved.files location hnow
    refine ⟨s, List.mem_append_left _ (hdone s hs), ?_⟩
    cases hlocate with
    | inl htarget =>
      obtain ⟨snapshot, hsnapshot, hsame, _⟩ := Lists.exists_right_of_forall₂ hheld hs
      exact absurd (hsame ▸ htarget) (htargets snapshot (List.mem_reverse.mpr hsnapshot))
    | inr htemporary => exact hextends.locate htemporary

/-- A commit that fails leaves temporary files at most. -/
theorem Beside.commit (h : Beside original reserved tree staged) {refuses : Refusals}
    {unchanged : List String} {fault : FileFault}
    (hfailed : (commit refuses tree staged unchanged).outcome = .error fault) :
    Beside original reserved (commit refuses tree staged unchanged).tree staged := by
  unfold Output.commit at hfailed ⊢
  cases hsnapshots : snapshots refuses tree 0 staged with
  | error fault' => exact h
  | ok held =>
    simp only [hsnapshots] at hfailed ⊢
    have hmoved := moved_replaceAll refuses 0 tree staged
    cases hreplace : replaceAll refuses 0 tree staged with
    | mk moved rest =>
      obtain ⟨count, stopped, lines⟩ := rest
      rw [hreplace] at hmoved
      cases stopped with
      | none => simp [hreplace] at hfailed
      | some fault' =>
        exact h.undo (fun s hmem => List.mem_of_mem_take hmem) hmoved
          (List.forall₂_take count (snapshots_hold hsnapshots))

/-- Writing that fails leaves every file as it was and adds none, whatever the file system
refuses. -/
theorem fileAt?_writeUnder_of_error {refuses : Refusals} {files : List OutputFile}
    {fault : FileFault} (hnames : ∀ file ∈ files, FileTree.endsInName (targetOf directory file) = true)
    (hfailed : (writeUnder refuses tree directory files).outcome = .error fault)
    (location : Location) :
    (writeUnder refuses tree directory files).tree.fileAt? location = tree.fileAt? location := by
  unfold writeUnder at hfailed ⊢
  cases hplan : plan tree directory files with
  | error fault' => rfl
  | ok found =>
    obtain ⟨changed, unchanged⟩ := found
    have hchanged : ∀ file ∈ changed, file ∈ files := by
      intro file hmem
      unfold plan at hplan
      split at hplan
      · cases hplan
      · rw [Except.ok.injEq, Plan.mk.injEq] at hplan
        rw [← hplan.1] at hmem
        exact (List.mem_filter.mp hmem).1
    cases changed with
    | nil => rfl
    | cons file rest =>
      simp only [hplan] at hfailed ⊢
      have hstaged := (beside_nil tree (files.map fun file => (targetOf directory file).name)).stageAll
        refuses 0 fun other (hmem : other ∈ file :: rest) =>
          ⟨hnames other (hchanged other hmem), List.mem_map_of_mem (hchanged other hmem)⟩
      rw [List.nil_append] at hstaged
      split at hfailed
      · exact hstaged.fileAt?_discard location
      · exact (hstaged.commit hfailed).fileAt?_discard location

end DesignTokens.Output
