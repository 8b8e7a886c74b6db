import DesignTokens.Proofs.Output.Placed
import Mathlib.Data.List.Nodup
/-!
# The bytes of output

A file is compared with its text after universal newlines and written as the bytes of its text.  The
two agree but for carriage returns: what is reported as written has exactly its bytes, and what is
reported as unchanged has them exactly if no carriage return stands in the file.
-/

set_option autoImplicit false

namespace DesignTokens

/-! ## Reading back -/

theorem Text.not_mem_normalizeNewlines (cs : List Char) : '\r' ∉ normalizeNewlines cs := by
  fun_induction normalizeNewlines cs with
  | case1 => exact List.not_mem_nil
  | case2 rest ih =>
    rw [List.mem_cons, not_or]
    exact ⟨by decide, ih⟩
  | case3 c rest hpair ih =>
    rw [List.mem_cons, not_or]
    refine ⟨?_, ih⟩
    split
    · decide
    · rename_i hc
      exact Ne.symm hc

/-- Bytes are read as a text with universal newlines. -/
theorem FileTree.decodeText_eq_some_iff {bytes : ByteArray} {text : String} :
    decodeText bytes = some text ↔
      ∃ held : String, bytes = held.toUTF8 ∧
        String.ofList (Text.normalizeNewlines held.toList) = text := by
  unfold decodeText String.fromUTF8?
  constructor
  · intro h
    split at h
    · rename_i hvalid
      exact ⟨String.fromUTF8 bytes hvalid, rfl, Option.some.inj h⟩
    · cases h
  · rintro ⟨held, rfl, rfl⟩
    rw [String.toUTF8_eq_toByteArray, dif_pos held.isValidUTF8]
    rfl

namespace FileTree

/-- The file of a path is a text in which a carriage return stands. -/
def HoldsReturn (tree : FileTree) (path : Path) : Prop :=
  ∃ held : String, tree.readBytes path = .ok held.toUTF8 ∧ '\r' ∈ held.toList

theorem readText_eq_ok_iff {tree : FileTree} {path : Path} {text : String} :
    tree.readText path = .ok text ↔
      ∃ bytes, tree.readBytes path = .ok bytes ∧ decodeText bytes = some text := by
  unfold readText
  cases tree.readBytes path with
  | error fault => simp
  | ok bytes => cases hdecode : decodeText bytes <;> simp [hdecode]

/-- The bytes of a file whose text is read are those of the text exactly if no carriage return
stands in the file. -/
theorem readBytes_iff_of_readText {tree : FileTree} {path : Path} {text : String}
    (h : tree.readText path = .ok text) :
    tree.readBytes path = .ok text.toUTF8 ↔ ¬tree.HoldsReturn path := by
  obtain ⟨bytes, hbytes, hdecode⟩ := readText_eq_ok_iff.mp h
  obtain ⟨held, rfl, rfl⟩ := decodeText_eq_some_iff.mp hdecode
  rw [hbytes, Except.ok.injEq]
  constructor
  · rintro heq ⟨other, hother, hreturn⟩
    rw [hbytes, Except.ok.injEq, heq] at hother
    have hsame : String.ofList (Text.normalizeNewlines held.toList) = other :=
      String.toByteArray_inj.mp hother
    rw [← hsame, String.toList_ofList] at hreturn
    exact Text.not_mem_normalizeNewlines _ hreturn
  · intro hreturn
    have hnone : '\r' ∉ held.toList := fun hmem => hreturn ⟨held, hbytes, hmem⟩
    rw [Text.normalizeNewlines_of_not_mem hnone, String.ofList_toList]

theorem hasFile_of_readBytes {tree : FileTree} {path : Path} {bytes : ByteArray}
    (h : tree.readBytes path = .ok bytes) : tree.hasFile path = true := by
  unfold readBytes at h
  unfold hasFile
  cases hstat : tree.stat path with
  | error fault => simp [hstat, bind, Except.bind] at h
  | ok entry =>
    cases entry with
    | file held time => rfl
    | directory time => simp [hstat, bind, Except.bind] at h

end FileTree

namespace Output

open FileTree

variable {tree after : FileTree} {directory : Path} {files : List OutputFile} {file : OutputFile}

/-- A file is current if its text is read. -/
theorem isCurrent_iff :
    isCurrent tree directory file = true ↔
      tree.readText (targetOf directory file) = .ok file.content := by
  unfold isCurrent
  cases tree.readText (targetOf directory file) with
  | error fault => simp
  | ok text => simp

/-- A file that was current is still the one it was. -/
theorem Wrote.readBytes_of_current (h : Wrote tree after directory files)
    (hdistinct : (files.map fun file => tree.normalize (targetOf directory file)).Nodup)
    (hfile : file ∈ files) (hcurrent : isCurrent tree directory file = true) :
    after.readBytes (targetOf directory file) = tree.readBytes (targetOf directory file) := by
  obtain ⟨bytes, hbytes, _⟩ := readText_eq_ok_iff.mp (isCurrent_iff.mp hcurrent)
  rw [hbytes]
  refine h.extended.readBytes (fileAt?_of_datedFile? (h.others _ ?_)) hbytes
  intro other hother hstale heq
  rw [List.inj_on_of_nodup_map hdistinct hother hfile heq, hcurrent] at hstale
  cases hstale

/-- Writing that succeeds reports every listed file once, in the order given, as unchanged if its
text was there already and as written if not.  Each is then a file.  It has exactly the bytes of its
text unless it was passed over with a carriage return in it, in which case it keeps the bytes it had.
Every other file keeps its bytes. -/
theorem writeUnder_places_bytes {refuses : Refusals} {written : Written} (hstands : tree.Stands)
    (hdistinct : (files.map fun file => tree.normalize (targetOf directory file)).Nodup)
    (h : (writeUnder refuses tree directory files).outcome = .ok written) :
    written.written = (files.filter fun file => !isCurrent tree directory file).map (·.path) ∧
      written.unchanged = (files.filter fun file => isCurrent tree directory file).map (·.path) ∧
      (∀ file ∈ files,
        (writeUnder refuses tree directory files).tree.hasFile (targetOf directory file) = true ∧
        ((writeUnder refuses tree directory files).tree.readBytes (targetOf directory file) =
            .ok file.content.toUTF8 ↔
          ¬(isCurrent tree directory file = true ∧
            tree.HoldsReturn (targetOf directory file))) ∧
        (isCurrent tree directory file = true →
          (writeUnder refuses tree directory files).tree.readBytes (targetOf directory file) =
            tree.readBytes (targetOf directory file))) ∧
      ∀ location, (∀ file ∈ files, tree.normalize (targetOf directory file) ≠ location) →
        (writeUnder refuses tree directory files).tree.fileAt? location =
          tree.fileAt? location := by
  obtain ⟨hwritten, hwrote⟩ := wrote_of_writeUnder hstands hdistinct h
  rw [hwritten]
  refine ⟨rfl, rfl, fun file hfile => ?_, fun location hlocation => ?_⟩
  · cases hcurrent : isCurrent tree directory file with
    | true =>
      have hkept := hwrote.readBytes_of_current hdistinct hfile hcurrent
      have hread := isCurrent_iff.mp hcurrent
      obtain ⟨bytes, hbytes, _⟩ := readText_eq_ok_iff.mp hread
      rw [hkept]
      refine ⟨hasFile_of_readBytes (hkept.trans hbytes), ?_, fun _ => rfl⟩
      rw [readBytes_iff_of_readText hread]
      simp only [true_and]
    | false =>
      have hbytes := hwrote.changed file hfile hcurrent
      refine ⟨hasFile_of_readBytes hbytes, iff_of_true hbytes ?_, fun hnone => by cases hnone⟩
      rintro ⟨hnone, _⟩
      cases hnone
  · exact fileAt?_of_datedFile?
      (hwrote.others location fun file hfile _ => hlocation file hfile)

/-! ## A carriage return that stays -/

/-- The directory of the sheets below. -/
def outDirectory : Path := ⟨.here, ["out"]⟩

/-- A tree with one sheet, whose first line ends in two characters. -/
def returnTree : FileTree :=
  { entries := [(["out"], .directory 0), (["out", "a.css"], .file "a\r\nb\n".toUTF8 0)]
    workingDirectory := []
    clock := 1 }

/-- That sheet with its lines ended by one character. -/
def plainSheet : OutputFile := ⟨"a.css", "a\nb\n", .group⟩

/-- A sheet that is not there yet. -/
def newSheet : OutputFile := ⟨"b.css", "c\n", .group⟩

theorem stands_returnTree : returnTree.Stands := by
  intro above habove
  rw [List.prefix_nil.mp habove]
  exact standing?_root returnTree

theorem places_bytes_of_newSheet :
    ∃ written,
      (writeUnder noRefusals returnTree outDirectory [plainSheet, newSheet]).outcome =
        .ok written ∧
      written.written = ["b.css"] ∧ written.unchanged = ["a.css"] ∧
      (writeUnder noRefusals returnTree outDirectory [plainSheet, newSheet]).tree.readBytes
        (targetOf outDirectory newSheet) = .ok "c\n".toUTF8 ∧
      (writeUnder noRefusals returnTree outDirectory [plainSheet, newSheet]).tree.readBytes
        (targetOf outDirectory plainSheet) ≠ .ok "a\nb\n".toUTF8 := by
  have houtcome : (writeUnder noRefusals returnTree outDirectory [plainSheet, newSheet]).outcome =
      .ok ⟨["b.css"], ["a.css"]⟩ := by decide +kernel
  obtain ⟨_, _, hfiles, _⟩ := writeUnder_places_bytes stands_returnTree (by decide +kernel) houtcome
  obtain ⟨_, hnew, _⟩ := hfiles newSheet (List.mem_cons_of_mem _ List.mem_cons_self)
  obtain ⟨_, hplain, _⟩ := hfiles plainSheet List.mem_cons_self
  refine ⟨_, houtcome, rfl, rfl, hnew.mpr ?_, fun heq => hplain.mp heq ?_⟩
  · rintro ⟨hcurrent, _⟩
    revert hcurrent
    decide +kernel
  · exact ⟨by decide +kernel, "a\r\nb\n", by decide +kernel, by decide +kernel⟩

/-- A sheet whose text was there but for carriage returns is reported as unchanged and keeps them, so
that its bytes are not those of its text. -/
theorem unchanged_sheet_keeps_return :
    returnTree.Stands ∧
      ([plainSheet].map fun file => returnTree.normalize (targetOf outDirectory file)).Nodup ∧
      (write returnTree outDirectory [plainSheet]).outcome = .ok ⟨[], ["a.css"]⟩ ∧
      (write returnTree outDirectory [plainSheet]).tree.readBytes
        (targetOf outDirectory plainSheet) = .ok "a\r\nb\n".toUTF8 ∧
      (write returnTree outDirectory [plainSheet]).tree.readBytes
        (targetOf outDirectory plainSheet) ≠ .ok plainSheet.content.toUTF8 :=
  ⟨stands_returnTree, by decide +kernel, by decide +kernel, by decide +kernel, by decide +kernel⟩

end Output

end DesignTokens
