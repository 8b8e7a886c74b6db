import DesignTokens.Proofs.Json.Reading
import DesignTokens.Proofs.Store.Repeat
/-!
# No definition is lost to a repeated key

A document that is not kept is read from its text.  If an object of the text, at any depth, has a key
twice, the document is refused, and the fault names the first key that is repeated in the object that
closes first among those.  Otherwise the document has every pair that is written in the text.
-/

set_option autoImplicit false

namespace DesignTokens

namespace Store

open Json

variable {store : Store} {tree : FileTree} {path : Path} {entry : Entry} {identifier : String}
  {document : WrittenText}

theorem parseText_string (document : WrittenText) (identifier : String) :
    parseText identifier document.string =
      match firstRepeat document.objects with
      | some key => .error (documentFailure identifier (.repeatedKey (textOf key)))
      | none => .ok document.value := by
  unfold parseText
  rw [document.read_string]
  cases firstRepeat document.objects with
  | some key => rfl
  | none => rfl

/-- A document that is not kept is what its text tells. -/
theorem readDocument_of_text (hstat : tree.stat path = .ok entry)
    (htext : tree.readText path = .ok document.string)
    (hnot : ∀ kept, OrderedMap.get? store.documents path ≠ some (entry.changed, kept)) :
    (store.readDocument tree path identifier).1 =
      match firstRepeat document.objects with
      | some key => .error (documentFailure identifier (.repeatedKey (textOf key)))
      | none => .ok document.value := by
  rw [readDocument_of_not_kept hstat hnot, parseFile, htext]
  simp only [parseText_string]
  cases firstRepeat document.objects with
  | some key => rfl
  | none => rfl

/-- Reading a document fails for a repeated key exactly if an object of its text repeats one.  The key
is the first to repeat an earlier one in the object that closes first among those that repeat a key.
Without repetitions, all pairs are read. -/
theorem repeated_keys_are_refused (store : Store) (tree : FileTree) (path : Path)
    (identifier : String) (entry : Entry) (document : WrittenText)
    (hstat : tree.stat path = .ok entry) (htext : tree.readText path = .ok document.string)
    (hnot : ∀ kept, OrderedMap.get? store.documents path ≠ some (entry.changed, kept)) :
    ((∃ name, (store.readDocument tree path identifier).1 =
        .error (documentFailure identifier (.repeatedKey name))) ↔
      ∃ object ∈ document.objects, ¬ object.keys.Nodup) ∧
    (∀ name, (store.readDocument tree path identifier).1 =
        .error (documentFailure identifier (.repeatedKey name)) ↔
      ∃ key, name = textOf key ∧ ∃ object ∈ document.objects, object.RepeatsFirst key ∧
        ∀ other ∈ document.objects, ¬ other.keys.Nodup → object.closing ≤ other.closing) ∧
    ((∀ object ∈ document.objects, object.keys.Nodup) →
      (store.readDocument tree path identifier).1 = .ok document.value) := by
  rw [readDocument_of_text hstat htext hnot]
  cases hfirst : firstRepeat document.objects with
  | none =>
    have hnodup := firstRepeat_eq_none_iff.mp hfirst
    have hnone : ¬∃ object ∈ document.objects, ¬ object.keys.Nodup := by
      rintro ⟨object, hobject, hrepeats⟩
      exact hrepeats (hnodup object hobject)
    refine ⟨⟨?_, fun h => absurd h hnone⟩, fun name => ⟨?_, ?_⟩, fun _ => rfl⟩
    · rintro ⟨name, h⟩
      cases h
    · intro h
      cases h
    · rintro ⟨key, -, object, hobject, hkey, -⟩
      exact absurd ⟨object, hobject, hkey.not_nodup⟩ hnone
  | some key =>
    have hinOrder : InOrder document.objects := document.body.inOrder_objects _
    have hkeys (other : CodePoints) := @firstRepeat_eq_some_iff document.objects other hinOrder
    obtain ⟨object, hobject, hkey, -⟩ := (hkeys key).mp hfirst
    refine ⟨⟨fun _ => ⟨object, hobject, hkey.not_nodup⟩, fun _ => ⟨textOf key, rfl⟩⟩,
      fun name => ⟨?_, ?_⟩, fun hnodup => absurd (hnodup object hobject) hkey.not_nodup⟩
    · intro h
      cases h
      exact ⟨key, rfl, (hkeys key).mp hfirst⟩
    · rintro ⟨other, rfl, hother⟩
      have hsame := (hkeys other).mpr hother
      rw [hfirst] at hsame
      rw [Option.some.inj hsame]

/-! ## Two objects that repeat a key -/

/-- No blanks. -/
def noBlanks : Blanks := ⟨[], nofun⟩

/-- One blank. -/
def oneBlank : Blanks := ⟨[' '], fun _ hc => List.mem_singleton.mp hc ▸ rfl⟩

/-- A number of one digit. -/
def oneDigit (c : Char) (hdigit : c.isDigit = true) : Numeral where
  negative := false
  whole := ⟨[c], List.cons_ne_nil _ _, fun _ hd => List.mem_singleton.mp hd ▸ hdigit⟩
  leading := fun h => congrArg (fun d => [d]) (Option.some.inj h)
  fraction := none
  power := none

/-- The inner object repeats a key, once by its escape; the outer one repeats a key before it. -/
def twiceRepeated : WrittenText where
  before := noBlanks
  body := .object noBlanks
    (.cons [.plain 'a' (by decide) (by decide) (by decide)] noBlanks oneBlank
      (.object noBlanks
        (.cons [.plain 'x' (by decide) (by decide) (by decide)] noBlanks oneBlank
          (.number (oneDigit '1' rfl) (.int 1) rfl) noBlanks oneBlank
          (.last [.unit '0' '0' '7' '8' 120 rfl] noBlanks oneBlank
            (.number (oneDigit '2' rfl) (.int 2) rfl) noBlanks)))
      noBlanks oneBlank
      (.last [.plain 'a' (by decide) (by decide) (by decide)] noBlanks oneBlank
        (.number (oneDigit '3' rfl) (.int 3) rfl) noBlanks))
  after := noBlanks

/-- A tree with that document. -/
def twiceRepeatedTree : FileTree where
  entries := [(["base.json"], .file twiceRepeated.string.toUTF8 1)]
  workingDirectory := []
  clock := 2

/-- The inner object closes first, so its key is named. -/
theorem repeated_key_of_twiceRepeated :
    twiceRepeated.string =
        "\x7b\"a\": \x7b\"x\": 1, \"\\u0078\": 2\x7d, \"a\": 3\x7d" ∧
      twiceRepeatedTree.stat ⟨.root, ["base.json"]⟩ =
        .ok (.file twiceRepeated.string.toUTF8 1) ∧
      twiceRepeatedTree.readText ⟨.root, ["base.json"]⟩ = .ok twiceRepeated.string ∧
      (∀ kept, OrderedMap.get? (new ⟨.root, []⟩).documents ⟨.root, ["base.json"]⟩ ≠
        some (1, kept)) ∧
      ((new ⟨.root, []⟩).readDocument twiceRepeatedTree ⟨.root, ["base.json"]⟩ "base.json").1 =
        .error (documentFailure "base.json" (.repeatedKey "x")) := by
  have hobjects : twiceRepeated.objects =
      [⟨26, [[120], [120]]⟩, ⟨35, [[97], [97]]⟩] := by
    decide +kernel
  have hstat : twiceRepeatedTree.stat ⟨.root, ["base.json"]⟩ =
      .ok (.file twiceRepeated.string.toUTF8 1) := rfl
  have htext : twiceRepeatedTree.readText ⟨.root, ["base.json"]⟩ = .ok twiceRepeated.string := by
    have hbytes : twiceRepeatedTree.readBytes ⟨.root, ["base.json"]⟩ =
        .ok twiceRepeated.string.toUTF8 := rfl
    have hdecode : FileTree.decodeText twiceRepeated.string.toUTF8 = some twiceRepeated.string :=
      FileTree.decodeText_toUTF8 (by decide +kernel)
    unfold FileTree.readText
    rw [hbytes]
    simp only [hdecode]
  have hnot (kept : Json) : OrderedMap.get? (new ⟨.root, []⟩).documents ⟨.root, ["base.json"]⟩ ≠
      some (1, kept) := nofun
  refine ⟨by decide +kernel, hstat, htext, hnot, ?_⟩
  obtain ⟨-, hnamed, -⟩ := repeated_keys_are_refused (new ⟨.root, []⟩) twiceRepeatedTree
    ⟨.root, ["base.json"]⟩ "base.json" (.file twiceRepeated.string.toUTF8 1) twiceRepeated hstat
    htext hnot
  refine (hnamed "x").mpr ⟨[120], rfl, ?_⟩
  rw [hobjects]
  refine ⟨_, List.mem_cons_self, ⟨[[120]], [], rfl, by decide, by decide⟩, ?_⟩
  decide

end Store

end DesignTokens
