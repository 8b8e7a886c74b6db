import DesignTokens.Proofs.Css.Lines
import DesignTokens.Proofs.Output.Exact
import DesignTokens.Proofs.Store.Repeat
/-!
# Writing again

Files without carriage returns are found as they were written, so that writing them again changes
nothing.  Nor does it touch the documents that are set apart from them.
-/

set_option autoImplicit false

namespace DesignTokens

namespace FileTree

variable {tree after : FileTree} {path : Path}

/-- The text of a file is read from its bytes if it has no carriage return. -/
theorem readText_of_readBytes {text : String} (htext : Text.NoReturn text)
    (h : tree.readBytes path = .ok text.toUTF8) : tree.readText path = .ok text :=
  readText_eq_ok_iff.mpr ⟨_, h, decodeText_toUTF8 htext⟩

theorem Untouched.of_stat (h : after.stat path = tree.stat path) : Untouched path tree after := by
  constructor
  · unfold findEntry
    rw [h]
  · unfold changedAt?
    rw [h]

/-- A path that leads to a file still leads to it, as long as the file is the same. -/
theorem Extends.stat_of_datedFile? (h : Extends tree after) {bytes : ByteArray} {changed : Int}
    (hfile : after.datedFile? (tree.normalize path) = tree.datedFile? (tree.normalize path))
    (hstat : tree.stat path = .ok (.file bytes changed)) :
    after.stat path = .ok (.file bytes changed) := by
  unfold stat at hstat ⊢
  cases hlocate : tree.locate path with
  | error fault => simp [hlocate, bind, Except.bind] at hstat
  | ok location =>
    rw [← eq_normalize_of_locate hlocate] at hfile
    cases hentry : tree.entry? location with
    | none => simp [hlocate, hentry, bind, Except.bind] at hstat
    | some entry =>
      simp only [hlocate, hentry, bind, Except.bind, Except.ok.injEq] at hstat
      subst hstat
      have hafter : after.entry? location = some (.file bytes changed) := by
        unfold datedFile? at hfile
        rw [hentry] at hfile
        split at hfile
        · rename_i hheld
          cases hfile
          exact hheld
        · cases hfile
      simp only [h.locate hlocate, hafter, bind, Except.bind]

end FileTree

namespace Output

open FileTree

variable {tree after : FileTree} {directory : Path} {files : List OutputFile} {file : OutputFile}

/-! ## Files -/

/-- Every file is current once all are written. -/
theorem Wrote.isCurrent_after (h : Wrote tree after directory files)
    (hdistinct : (files.map fun file => tree.normalize (targetOf directory file)).Nodup)
    (hplain : ∀ file ∈ files, Text.NoReturn file.content) (hfile : file ∈ files) :
    isCurrent after directory file = true := by
  rw [isCurrent_iff]
  cases hcurrent : isCurrent tree directory file with
  | false => exact readText_of_readBytes (hplain file hfile) (h.changed file hfile hcurrent)
  | true =>
    obtain ⟨bytes, hbytes, htext⟩ := readText_eq_ok_iff.mp (isCurrent_iff.mp hcurrent)
    refine readText_eq_ok_iff.mpr ⟨bytes, ?_, htext⟩
    rw [h.readBytes_of_current hdistinct hfile hcurrent, hbytes]

/-- Files that are written have paths that files can have. -/
theorem hasNul_eq_false_of_writeUnder {refuses : Refusals} {written : Written}
    (h : (writeUnder refuses tree directory files).outcome = .ok written) :
    (files.any fun file => (targetOf directory file).hasNul) = false := by
  cases hany : files.any fun file => (targetOf directory file).hasNul with
  | false => rfl
  | true =>
    unfold writeUnder plan at h
    simp only [hany, if_true] at h
    cases h

/-- Where all files are current, writing leaves the tree as it is. -/
theorem writeUnder_of_current
    (hpaths : (files.any fun file => (targetOf directory file).hasNul) = false)
    (hcurrent : ∀ file ∈ files, isCurrent tree directory file = true) (refuses : Refusals) :
    (writeUnder refuses tree directory files).outcome = .ok ⟨[], files.map (·.path)⟩ ∧
      (writeUnder refuses tree directory files).tree = tree := by
  have hchanged : (files.filter fun file => !isCurrent tree directory file) = [] := by
    rw [List.filter_eq_nil_iff]
    intro file hfile
    simp [hcurrent file hfile]
  have hplan : plan tree directory files = .ok ⟨[], files⟩ := by
    unfold plan
    rw [hpaths, if_neg Bool.false_ne_true, hchanged, List.filter_eq_self.mpr hcurrent]
  unfold writeUnder
  rw [hplan]
  exact ⟨rfl, rfl⟩

/-- Writing again what has been written leaves the tree as it is, whatever the file system would
refuse: it reports all files as unchanged. -/
theorem writeUnder_again {refuses : Refusals} {written : Written} (hstands : tree.Stands)
    (hdistinct : (files.map fun file => tree.normalize (targetOf directory file)).Nodup)
    (hplain : ∀ file ∈ files, Text.NoReturn file.content)
    (h : (writeUnder refuses tree directory files).outcome = .ok written) (refuses' : Refusals) :
    let first := (writeUnder refuses tree directory files).tree
    (writeUnder refuses' first directory files).outcome = .ok ⟨[], files.map (·.path)⟩ ∧
      (writeUnder refuses' first directory files).tree = first := by
  obtain ⟨_, hwrote⟩ := wrote_of_writeUnder hstands hdistinct h
  refine writeUnder_of_current (hasNul_eq_false_of_writeUnder h) (fun file hfile => ?_) refuses'
  exact hwrote.isCurrent_after hdistinct hplain hfile

/-! ## Documents -/

/-- A path is set apart from files that are written: none of them has its place, and if it led to no
file before, writing them has not touched what it leads to. -/
structure SetApart (tree after : FileTree) (directory : Path) (files : List OutputFile)
    (path : Path) : Prop where
  place : ∀ file ∈ files, tree.normalize path ≠ tree.normalize (targetOf directory file)
  absent : tree.hasFile path = false → FileTree.Untouched path tree after

/-- Then nothing that it leads to has been touched. -/
theorem Wrote.untouched {path : Path} (h : Wrote tree after directory files)
    (hpath : SetApart tree after directory files path) :
    FileTree.Untouched path tree after := by
  cases hfile : tree.hasFile path with
  | false => exact hpath.absent hfile
  | true =>
    unfold hasFile at hfile
    cases hstat : tree.stat path with
    | error fault => simp [hstat] at hfile
    | ok entry =>
      cases entry with
      | directory changed => simp [hstat, Entry.isDirectory] at hfile
      | file bytes changed =>
        refine .of_stat ((h.extended.stat_of_datedFile? ?_ hstat).trans hstat.symm)
        exact h.others _ fun file hfile _ heq => hpath.place file hfile heq.symm

end Output

end DesignTokens
