import DesignTokens.Proofs.FileTree.Places
import DesignTokens.Proofs.Json.Integers
import DesignTokens.Proofs.Output
/-!
# What writing puts in place

Writing that succeeds stages every changed file in full under a name of its own and then moves all of
them onto their targets.  Staging adds files at free places only, and the moves take each of them
away again, so that in the end the targets of the changed files hold the bytes of their texts and
every other file is the one it was, with the time of its last change.
-/

set_option autoImplicit false

namespace DesignTokens.Output

open FileTree

variable {first tree after : FileTree} {directory : Path} {reserved : List String}
  {files more : List OutputFile} {staged later : List Staged}

/-! ## Staging in full -/

/-- A staged file stands for an output file: it has its target, and waits with all of its bytes at
a place that was free and has a name that no target has. -/
structure Waiting (first tree : FileTree) (directory : Path) (reserved : List String)
    (file : OutputFile) (s : Staged) : Prop where
  target : s.target = targetOf directory file
  path : s.path = file.path
  content : tree.fileAt? (first.normalize s.temporary) = some file.content.toUTF8
  absent : first.fileAt? (first.normalize s.temporary) = none
  name : ∀ above, ∀ name ∈ reserved, first.normalize s.temporary ≠ above ++ [name]

/-- All of some output files are staged, at places apart, and no other file has changed. -/
structure Complete (first tree : FileTree) (directory : Path) (reserved : List String)
    (files : List OutputFile) (staged : List Staged) : Prop where
  extended : Extends first tree
  waiting : List.Forall₂ (Waiting first tree directory reserved) files staged
  apart : (staged.map fun s => first.normalize s.temporary).Nodup
  others : ∀ location, (∀ s ∈ staged, first.normalize s.temporary ≠ location) →
    tree.datedFile? location = first.datedFile? location

theorem complete_nil (tree : FileTree) (directory : Path) (reserved : List String) :
    Complete tree tree directory reserved [] [] :=
  ⟨.refl tree, .nil, List.nodup_nil, fun _ _ => rfl⟩

/-- Every staged file stands for an output file. -/
theorem Complete.exists_waiting (h : Complete first tree directory reserved files staged)
    {s : Staged} (hs : s ∈ staged) :
    ∃ file ∈ files, Waiting first tree directory reserved file s :=
  Lists.exists_right_of_forall₂ h.waiting.flip hs

/-- What waits is not where later files are staged. -/
theorem Complete.ne_of_waiting {middle : FileTree}
    (h : Complete middle after directory reserved more later) (hextends : Extends first middle)
    {file : OutputFile} {s t : Staged} (hwaiting : Waiting first middle directory reserved file s)
    (ht : t ∈ later) : first.normalize t.temporary ≠ first.normalize s.temporary := by
  intro heq
  obtain ⟨other, _, hother⟩ := h.exists_waiting ht
  have habsent := hother.absent
  rw [hextends.normalize, heq, hwaiting.content] at habsent
  cases habsent

/-- Files staged after others leave those where they wait. -/
theorem Complete.append {middle : FileTree}
    (h₁ : Complete first middle directory reserved files staged)
    (h₂ : Complete middle after directory reserved more later) :
    Complete first after directory reserved (files ++ more) (staged ++ later) := by
  have hnormalize := h₁.extended.normalize
  have hkept : ∀ location, (∀ t ∈ later, first.normalize t.temporary ≠ location) →
      after.datedFile? location = middle.datedFile? location := by
    intro location hlocation
    refine h₂.others location fun t ht => ?_
    rw [hnormalize]
    exact hlocation t ht
  refine ⟨h₁.extended.trans h₂.extended, List.rel_append ?_ ?_, ?_, ?_⟩
  · refine h₁.waiting.imp fun file s hwaiting => { hwaiting with content := ?_ }
    rw [fileAt?_of_datedFile? (hkept _ fun t ht => h₂.ne_of_waiting h₁.extended hwaiting ht)]
    exact hwaiting.content
  · refine h₂.waiting.imp fun file t hwaiting => ?_
    obtain ⟨htarget, hpath, hcontent, habsent, hname⟩ := hwaiting
    rw [hnormalize] at hcontent habsent
    simp only [hnormalize] at hname
    refine ⟨htarget, hpath, hcontent, ?_, hname⟩
    rw [← fileAt?_of_datedFile? (h₁.others _ fun s hs heq => ?_)]
    · exact habsent
    · obtain ⟨_, _, hstaged⟩ := h₁.exists_waiting hs
      rw [← heq, hstaged.content] at habsent
      cases habsent
  · rw [List.map_append, List.nodup_append]
    have hapart := h₂.apart
    simp only [hnormalize] at hapart
    refine ⟨h₁.apart, hapart, ?_⟩
    intro place hplace place' hplace'
    obtain ⟨s, hs, rfl⟩ := List.mem_map.mp hplace
    obtain ⟨t, ht, rfl⟩ := List.mem_map.mp hplace'
    obtain ⟨_, _, hwaiting⟩ := h₁.exists_waiting hs
    exact (h₂.ne_of_waiting h₁.extended hwaiting ht).symm
  · intro location hlocation
    rw [hkept location fun t ht => hlocation t (List.mem_append_right _ ht)]
    exact h₁.others location fun s hs => hlocation s (List.mem_append_left _ hs)

/-- The place of a fresh name beside a target is free and of no reserved name. -/
theorem free_temporaryFor {target : Path} {location : Location}
    (hlocate : tree.locate (temporaryFor tree reserved target) = .ok location) :
    tree.fileAt? location = none ∧ ∀ above, ∀ name ∈ reserved, location ≠ above ++ [name] := by
  obtain ⟨_, habsent, hname⟩ := (beside_nil tree reserved).apart_temporaryFor hlocate
  exact ⟨habsent, hname⟩

/-- A file that is staged without a refusal is staged in full. -/
theorem complete_stage {refuses : Refusals} {position : Nat} {file : OutputFile}
    (h : (stage refuses directory reserved position tree file).stopped = none) :
    Complete tree (stage refuses directory reserved position tree file).tree directory reserved
      [file] (stage refuses directory reserved position tree file).staged := by
  have hgrows := grows_makeDirectories tree (targetOf directory file).parent
  have hdated := datedFile?_makeDirectories tree (targetOf directory file).parent
  unfold stage at h ⊢
  simp only at h ⊢
  split at h
  · cases h
  · split at h
    · cases h
    · rename_i made hmade
      rw [hmade] at hgrows hdated
      have hnormalize := hgrows.extended.normalize
      split at h
      · cases h
      · split at h
        · cases h
        · rename_i created hcreated
          split at h
          · cases h
          · split at h
            · cases h
            · rename_i complete hcomplete
              obtain ⟨location, hadmits, hfree, hchanges⟩ := writeBytes_eq_ok hcreated
              obtain ⟨habsent, hname⟩ := free_temporaryFor hadmits.locate
              have hfirst := hchanges.extends hfree
              obtain ⟨_, _, hfree', hchanges'⟩ := writeBytes_eq_ok hcomplete
              have hcontent := fileAt?_writeBytes hcomplete
              rw [hadmits.eq_normalize] at habsent hname
              rw [hfirst.normalize, hnormalize] at hcontent
              rw [hnormalize] at habsent hname
              rw [hgrows.files] at habsent
              refine ⟨hgrows.extended.trans (hfirst.trans (hchanges'.extends hfree')),
                .cons ⟨rfl, rfl, hcontent, habsent, hname⟩ .nil, List.pairwise_singleton _ _, ?_⟩
              intro other hother
              have hplace := hother _ List.mem_cons_self
              rw [datedFile?_writeBytes hcomplete, datedFile?_writeBytes hcreated, hdated]
              · rw [hnormalize]
                exact hplace
              · rw [hfirst.normalize, hnormalize]
                exact hplace

/-- Files that are staged without a refusal are staged in full. -/
theorem complete_stageAll {refuses : Refusals} {position : Nat} {files : List OutputFile}
    (h : (stageAll refuses directory reserved position tree files).stopped = none) :
    Complete tree (stageAll refuses directory reserved position tree files).tree directory reserved
      files (stageAll refuses directory reserved position tree files).staged := by
  induction files generalizing position tree with
  | nil => exact complete_nil tree directory reserved
  | cons file rest ih =>
    rw [stageAll] at h ⊢
    simp only at h ⊢
    cases hfirst : (stage refuses directory reserved position tree file).stopped with
    | some fault =>
      rw [hfirst] at h
      cases h
    | none =>
      rw [hfirst] at h
      exact (complete_stage hfirst).append (ih h)

/-! ## Moving all -/

/-- Files wait to be moved: each at a place of its own, which is no target, onto a target of its
own. -/
structure Movable (first tree : FileTree) (directory : Path) (files : List OutputFile)
    (staged : List Staged) : Prop where
  workingDirectory : tree.workingDirectory = first.workingDirectory
  waiting : List.Forall₂ (fun file s => s.target = targetOf directory file ∧
    tree.fileAt? (first.normalize s.temporary) = some file.content.toUTF8) files staged
  temporaries : (staged.map fun s => first.normalize s.temporary).Nodup
  targets : (staged.map fun s => first.normalize s.target).Nodup
  apart : ∀ s ∈ staged, ∀ t ∈ staged, first.normalize s.temporary ≠ first.normalize t.target

/-- The targets have the texts, the temporary places are empty, and no other file has changed. -/
structure Placed (first tree after : FileTree) (directory : Path) (files : List OutputFile)
    (staged : List Staged) : Prop where
  targets : ∀ file ∈ files,
    after.fileAt? (first.normalize (targetOf directory file)) = some file.content.toUTF8
  temporaries : ∀ s ∈ staged, after.fileAt? (first.normalize s.temporary) = none
  others : ∀ location, (∀ s ∈ staged, first.normalize s.temporary ≠ location ∧
    first.normalize s.target ≠ location) → after.datedFile? location = tree.datedFile? location

/-- A file that is moved leaves the others where they wait. -/
theorem Movable.of_replace {middle : FileTree} {file : OutputFile} {s : Staged}
    (h : Movable first tree directory (file :: files) (s :: staged))
    (hreplace : tree.replace s.temporary s.target = .ok middle) :
    Movable first middle directory files staged ∧ Placed first tree middle directory [file] [s] := by
  have hextends := (Moved.of_replace hreplace).extended
  have hfirst : ∀ path, tree.normalize path = first.normalize path := by
    intro path
    unfold FileTree.normalize
    rw [h.workingDirectory]
  have hothers : ∀ location, first.normalize s.temporary ≠ location →
      first.normalize s.target ≠ location →
      middle.datedFile? location = tree.datedFile? location := by
    intro location htemporary htarget
    rw [← hfirst] at htemporary htarget
    exact datedFile?_replace hreplace htemporary htarget
  have hown := h.apart s List.mem_cons_self s List.mem_cons_self
  obtain ⟨hplaced, hempty⟩ := fileAt?_replace hreplace (by rw [hfirst, hfirst]; exact hown)
  rw [hfirst, hfirst] at hplaced
  rw [hfirst] at hempty
  obtain ⟨⟨htarget, hcontent⟩, hwaiting⟩ := List.forall₂_cons.mp h.waiting
  have htemporaries := List.nodup_cons.mp h.temporaries
  have htargets := List.nodup_cons.mp h.targets
  constructor
  · refine ⟨hextends.workingDirectory.trans h.workingDirectory, ?_, htemporaries.2, htargets.2,
      fun t ht t' ht' => h.apart t (List.mem_cons_of_mem _ ht) t' (List.mem_cons_of_mem _ ht')⟩
    refine Lists.forall₂_of_mem_right hwaiting fun other t ht hother => ⟨hother.1, ?_⟩
    rw [fileAt?_of_datedFile? (hothers _ ?_ ?_)]
    · exact hother.2
    · intro heq
      exact htemporaries.1 (List.mem_map.mpr ⟨t, ht, heq.symm⟩)
    · exact (h.apart t (List.mem_cons_of_mem _ ht) s List.mem_cons_self).symm
  · refine ⟨fun other hother => ?_, fun t ht => ?_, fun location hlocation => ?_⟩
    · rw [List.mem_singleton.mp hother, ← htarget]
      exact hplaced.trans hcontent
    · rw [List.mem_singleton.mp ht]
      exact hempty
    · obtain ⟨hne, hne'⟩ := hlocation s List.mem_cons_self
      exact hothers location hne hne'

/-- A move and then others. -/
theorem Placed.cons {middle : FileTree} {file : OutputFile} {s : Staged}
    (h : Movable first tree directory (file :: files) (s :: staged))
    (h₁ : Placed first tree middle directory [file] [s])
    (h₂ : Placed first middle after directory files staged) :
    Placed first tree after directory (file :: files) (s :: staged) := by
  have htemporaries := List.nodup_cons.mp h.temporaries
  have htargets := List.nodup_cons.mp h.targets
  have hkept : ∀ location, first.normalize s.target = location ∨
      first.normalize s.temporary = location →
      after.datedFile? location = middle.datedFile? location := by
    intro location hlocation
    refine h₂.others location fun t ht => ⟨?_, ?_⟩
    · rintro rfl
      cases hlocation with
      | inl heq => exact h.apart t (List.mem_cons_of_mem _ ht) s List.mem_cons_self heq.symm
      | inr heq => exact htemporaries.1 (List.mem_map.mpr ⟨t, ht, heq.symm⟩)
    · rintro rfl
      cases hlocation with
      | inl heq => exact htargets.1 (List.mem_map.mpr ⟨t, ht, heq.symm⟩)
      | inr heq => exact h.apart s List.mem_cons_self t (List.mem_cons_of_mem _ ht) heq
  obtain ⟨⟨htarget, _⟩, _⟩ := List.forall₂_cons.mp h.waiting
  refine ⟨fun other hother => ?_, fun t ht => ?_, fun location hlocation => ?_⟩
  · cases List.mem_cons.mp hother with
    | inl heq =>
      rw [heq, fileAt?_of_datedFile? (hkept _ (.inl (by rw [htarget])))]
      exact h₁.targets file List.mem_cons_self
    | inr hother => exact h₂.targets other hother
  · cases List.mem_cons.mp ht with
    | inl heq =>
      rw [heq, fileAt?_of_datedFile? (hkept _ (.inr rfl))]
      exact h₁.temporaries s List.mem_cons_self
    | inr ht => exact h₂.temporaries t ht
  · rw [h₂.others location fun t ht => hlocation t (List.mem_cons_of_mem _ ht)]
    refine h₁.others location fun t ht => ?_
    rw [List.mem_singleton.mp ht]
    exact hlocation s List.mem_cons_self

/-- Files that are moved without a refusal are all in place. -/
theorem Movable.placed {refuses : Refusals} {position : Nat}
    (h : Movable first tree directory files staged)
    (hmoved : (replaceAll refuses position tree staged).2.2.1 = none) :
    Placed first tree (replaceAll refuses position tree staged).1 directory files staged := by
  induction staged generalizing position tree files with
  | nil =>
    rw [List.forall₂_nil_right_iff.mp h.waiting]
    exact ⟨fun _ hmem => absurd hmem List.not_mem_nil, fun _ ht => absurd ht List.not_mem_nil,
      fun _ _ => rfl⟩
  | cons s rest ih =>
    obtain ⟨file, others, _, _, rfl⟩ := List.forall₂_cons_right_iff.mp h.waiting
    rw [replaceAll] at hmoved ⊢
    simp only at hmoved ⊢
    split at hmoved
    · cases hmoved
    · rename_i middle hmiddle
      have hreplace : tree.replace s.temporary s.target = .ok middle := by
        split at hmiddle
        · cases hmiddle
        · exact hmiddle
      obtain ⟨hrest, hfirst⟩ := h.of_replace hreplace
      exact .cons h hfirst (ih hrest hmoved)

/-- Without a refusal all files are moved. -/
theorem count_replaceAll {refuses : Refusals} {position : Nat}
    (h : (replaceAll refuses position tree staged).2.2.1 = none) :
    (replaceAll refuses position tree staged).2.1 = staged.length := by
  induction staged generalizing position tree with
  | nil => rfl
  | cons s rest ih =>
    rw [replaceAll] at h ⊢
    simp only at h ⊢
    split at h
    · cases h
    · rw [ih h, List.length_cons]

/-- Where no file is left there is nothing to remove. -/
theorem discard_eq_self (h : ∀ s ∈ staged, tree.fileAt? (tree.normalize s.temporary) = none) :
    discard tree staged = tree := by
  induction staged with
  | nil => rfl
  | cons s rest ih =>
    rw [discard]
    cases hremove : tree.removeFile s.temporary with
    | ok removed =>
      exact absurd (h s List.mem_cons_self) (fileAt?_ne_none_of_removeFile hremove)
    | error fault => exact ih fun t ht => h t (List.mem_cons_of_mem _ ht)

/-! ## What is written -/

/-- What is left of a tree when files are written below a directory: the files that were not current
have the bytes of their texts, and every other file is the one it was. -/
structure Wrote (tree after : FileTree) (directory : Path) (files : List OutputFile) : Prop where
  extended : Extends tree after
  changed : ∀ file ∈ files, isCurrent tree directory file = false →
    after.readBytes (targetOf directory file) = .ok file.content.toUTF8
  others : ∀ location, (∀ file ∈ files, isCurrent tree directory file = false →
    tree.normalize (targetOf directory file) ≠ location) →
    after.datedFile? location = tree.datedFile? location

/-- The files of a plan. -/
theorem plan_eq_ok {found : Plan} (h : plan tree directory files = .ok found) :
    found = ⟨files.filter fun file => !isCurrent tree directory file,
      files.filter fun file => isCurrent tree directory file⟩ := by
  unfold plan at h
  split at h
  · cases h
  · exact (Except.ok.inj h).symm

/-- Files that are staged in full can be moved if a directory stands at none of their targets. -/
theorem Complete.movable (h : Complete first tree directory reserved files staged)
    (hstands : first.Stands)
    (hreserved : ∀ file ∈ files, (targetOf directory file).name ∈ reserved)
    (hdistinct : (files.map fun file => first.normalize (targetOf directory file)).Nodup)
    (htargets : ∀ s ∈ staged, ∃ location, Admits tree s.target location ∧
      tree.standing? location ≠ some .directory) : Movable first tree directory files staged := by
  refine ⟨h.extended.workingDirectory,
    h.waiting.imp fun _ _ hwaiting => ⟨hwaiting.target, hwaiting.content⟩, h.apart, ?_,
    fun s hs t ht => ?_⟩
  · rw [Lists.map_eq_of_forall₂ h.waiting fun file s hwaiting => by rw [hwaiting.target]]
    exact hdistinct
  · obtain ⟨location, hadmits, hfree⟩ := htargets t ht
    obtain ⟨above, hlast⟩ :=
      (hstands.extends h.extended).exists_append_of_locate hadmits.locate hfree
    rw [hadmits.eq_normalize, h.extended.normalize] at hlast
    obtain ⟨_, _, hwaiting⟩ := h.exists_waiting hs
    obtain ⟨file, hfile, htarget⟩ := h.exists_waiting ht
    rw [hlast]
    exact hwaiting.name above _ (htarget.target ▸ hreserved file hfile)

/-- What a commit that succeeds has done. -/
theorem commit_eq_ok {refuses : Refusals} {unchanged : List String} {written : Written}
    (h : (commit refuses tree staged unchanged).outcome = .ok written) :
    written = ⟨staged.map (·.path), unchanged⟩ ∧
      (replaceAll refuses 0 tree staged).2.2.1 = none ∧
      (commit refuses tree staged unchanged).tree = (replaceAll refuses 0 tree staged).1 := by
  unfold Output.commit at h ⊢
  cases hsnapshots : snapshots refuses tree 0 staged with
  | error fault => simp [hsnapshots] at h
  | ok held =>
    simp only [hsnapshots] at h ⊢
    cases hreplace : replaceAll refuses 0 tree staged with
    | mk moved rest =>
      obtain ⟨count, stopped, lines⟩ := rest
      cases stopped with
      | some fault => simp [hreplace] at h
      | none =>
        simp only [hreplace, Except.ok.injEq] at h
        exact ⟨h.symm, rfl, rfl⟩

/-- Files that are staged in full and moved without a refusal are all that has changed, and nothing
is left to remove. -/
theorem Complete.wrote (h : Complete first tree directory reserved files staged)
    (hstands : first.Stands)
    (hreserved : ∀ file ∈ files, (targetOf directory file).name ∈ reserved)
    (hdistinct : (files.map fun file => first.normalize (targetOf directory file)).Nodup)
    {refuses : Refusals} (hmoved : (replaceAll refuses 0 tree staged).2.2.1 = none) :
    discard (replaceAll refuses 0 tree staged).1 staged = (replaceAll refuses 0 tree staged).1 ∧
      Extends first (replaceAll refuses 0 tree staged).1 ∧
      (∀ file ∈ files, (replaceAll refuses 0 tree staged).1.readBytes (targetOf directory file) =
        .ok file.content.toUTF8) ∧
      ∀ location, (∀ file ∈ files, first.normalize (targetOf directory file) ≠ location) →
        (replaceAll refuses 0 tree staged).1.datedFile? location = first.datedFile? location := by
  have hmoves := moved_replaceAll refuses 0 tree staged
  rw [count_replaceAll hmoved, List.take_length] at hmoves
  have hextends := h.extended.trans hmoves.extended
  have hplaced := (h.movable hstands hreserved hdistinct hmoves.targets).placed hmoved
  refine ⟨discard_eq_self fun s hs => ?_, hextends, fun file hfile => ?_,
    fun location hlocation => ?_⟩
  · rw [hextends.normalize]
    exact hplaced.temporaries s hs
  · obtain ⟨s, hs, hwaiting⟩ := Lists.exists_right_of_forall₂ h.waiting hfile
    obtain ⟨location, hadmits, _⟩ := hmoves.targets s hs
    have hplace := hadmits.eq_normalize
    rw [h.extended.normalize, hwaiting.target] at hplace
    rw [hwaiting.target] at hadmits
    refine readBytes_eq_ok_iff.mpr ⟨location, hmoves.extended.locate hadmits.locate, ?_⟩
    rw [hplace]
    exact hplaced.targets file hfile
  · have htargets : ∀ s ∈ staged, first.normalize s.target ≠ location := by
      intro s hs
      obtain ⟨file, hfile, hwaiting⟩ := h.exists_waiting hs
      rw [hwaiting.target]
      exact hlocation file hfile
    by_cases hplace : ∃ s ∈ staged, first.normalize s.temporary = location
    · obtain ⟨s, hs, rfl⟩ := hplace
      obtain ⟨_, _, hwaiting⟩ := h.exists_waiting hs
      rw [datedFile?_eq_none hwaiting.absent, datedFile?_eq_none (hplaced.temporaries s hs)]
    · rw [hplaced.others location fun s hs => ⟨fun heq => hplace ⟨s, hs, heq⟩, htargets s hs⟩]
      exact h.others location fun s hs heq => hplace ⟨s, hs, heq⟩

/-- Writing that succeeds tells the files apart by whether they were current, in the order given. -/
theorem written_of_writeUnder {refuses : Refusals} {written : Written}
    (h : (writeUnder refuses tree directory files).outcome = .ok written) :
    written = ⟨(files.filter fun file => !isCurrent tree directory file).map (·.path),
      (files.filter fun file => isCurrent tree directory file).map (·.path)⟩ := by
  unfold writeUnder at h
  cases hplan : plan tree directory files with
  | error fault => simp [hplan] at h
  | ok found =>
    obtain ⟨changed, unchanged⟩ := found
    obtain ⟨hchanged, hunchanged⟩ := Plan.mk.inj (plan_eq_ok hplan)
    rw [← hchanged, ← hunchanged]
    cases changed with
    | nil =>
      simp only [hplan, Except.ok.injEq] at h
      exact h.symm
    | cons file rest =>
      simp only [hplan] at h
      split at h
      · cases h
      · rename_i hstopped
        rw [(commit_eq_ok h).1, Lists.map_eq_of_forall₂ (complete_stageAll hstopped).waiting
          fun _ _ hwaiting => hwaiting.path]

/-- No path is lost, and none told twice. -/
theorem perm_of_writeUnder {refuses : Refusals} {written : Written}
    (h : (writeUnder refuses tree directory files).outcome = .ok written) :
    (written.written ++ written.unchanged).Perm (files.map (·.path)) := by
  rw [written_of_writeUnder h, ← List.map_append]
  refine List.Perm.map _ (List.perm_append_comm.trans ?_)
  exact List.filter_append_perm _ _

/-- Writing that succeeds tells the files apart by whether they were current, in the order given, and
has written those that were not. -/
theorem wrote_of_writeUnder {refuses : Refusals} {written : Written} (hstands : tree.Stands)
    (hdistinct : (files.map fun file => tree.normalize (targetOf directory file)).Nodup)
    (h : (writeUnder refuses tree directory files).outcome = .ok written) :
    written = ⟨(files.filter fun file => !isCurrent tree directory file).map (·.path),
        (files.filter fun file => isCurrent tree directory file).map (·.path)⟩ ∧
      Wrote tree (writeUnder refuses tree directory files).tree directory files := by
  refine ⟨written_of_writeUnder h, ?_⟩
  unfold writeUnder at h ⊢
  cases hplan : plan tree directory files with
  | error fault => simp [hplan] at h
  | ok found =>
    obtain ⟨changed, unchanged⟩ := found
    obtain ⟨hchanged, _⟩ := Plan.mk.inj (plan_eq_ok hplan)
    have hmem : ∀ file, file ∈ changed ↔
        file ∈ files ∧ isCurrent tree directory file = false := by
      intro file
      rw [hchanged, List.mem_filter, Bool.not_eq_true']
    cases changed with
    | nil =>
      simp only
      refine ⟨.refl tree, fun file hfile hstale => ?_, fun _ _ => rfl⟩
      exact absurd ((hmem file).mpr ⟨hfile, hstale⟩) List.not_mem_nil
    | cons file rest =>
      simp only [hplan] at h ⊢
      generalize hreserved : (files.map fun file => (targetOf directory file).name) = reserved
        at h ⊢
      cases hstopped : (stageAll refuses directory reserved 0 tree (file :: rest)).stopped with
      | some fault => simp [hstopped] at h
      | none =>
        simp only [hstopped] at h ⊢
        obtain ⟨_, hmoved, htree⟩ := commit_eq_ok h
        have hfiles : ∀ other ∈ file :: rest, other ∈ files :=
          fun other hother => ((hmem other).mp hother).1
        obtain ⟨hdiscard, hextends, hbytes, hothers⟩ := (complete_stageAll hstopped).wrote hstands
          (fun other hother => hreserved ▸ List.mem_map_of_mem (hfiles other hother))
          (hdistinct.sublist (hchanged ▸ List.filter_sublist.map _)) hmoved
        rw [htree, hdiscard]
        refine ⟨hextends, fun other hother hstale => ?_, fun location hlocation => ?_⟩
        · exact hbytes other ((hmem other).mpr ⟨hother, hstale⟩)
        · refine hothers location fun other hother => ?_
          obtain ⟨hlisted, hstale⟩ := (hmem other).mp hother
          exact hlocation other hlisted hstale

end DesignTokens.Output
