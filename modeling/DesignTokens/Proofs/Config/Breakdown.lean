import DesignTokens.Config.File
import DesignTokens.Proofs.Lists
/-!
# What breaks the loading of settings

Settings that are absent, malformed or invalid are refused with an error.  Only the contents that no
refusal accounts for break loading: a file that is there but cannot be read, bytes that are no text,
a YAML scalar without a value, and metadata with an integer that is too long or with a token set
that is named by something else than a text.
-/

set_option autoImplicit false

namespace DesignTokens

variable {tree : FileTree} {cause : Breakdown}

/-! ## The contents in question -/

/-- A settings file breaks the reader. -/
inductive Config.FileBreaks (tree : FileTree) (path : Path) : Breakdown → Prop where
  | unreadable (fault : FileFault) (hread : tree.readText path = .error (.file fault))
      (hfault : fault ≠ .noEntry) : FileBreaks tree path (.file fault)
  | undecodable (hread : tree.readText path = .error .undecodable) :
      FileBreaks tree path .undecodable
  | scalar (text : String) (fault : Yaml.ScalarFault) (hread : tree.readText path = .ok text)
      (hyaml : Yaml.read text = .error (.scalar fault)) : FileBreaks tree path (.scalar fault)

/-- The metadata document of a data directory breaks the reader. -/
inductive Metadata.DocumentBreaks (tree : FileTree) (dataDir : Path) : Breakdown → Prop where
  | unreadable (fault : FileFault)
      (hread : tree.readText (dataDir.join (Path.ofString fileName)) = .error (.file fault))
      (hfault : fault ≠ .noEntry) : DocumentBreaks tree dataDir (.file fault)
  | undecodable
      (hread : tree.readText (dataDir.join (Path.ofString fileName)) = .error .undecodable) :
      DocumentBreaks tree dataDir .undecodable
  | notRead (text : String) (fault : Json.ReadFault)
      (hread : tree.readText (dataDir.join (Path.ofString fileName)) = .ok text)
      (hjson : Json.read .keepLast text = .error fault)
      (hfault : ∀ complaint place, fault ≠ .malformed complaint place) :
      DocumentBreaks tree dataDir .integerTooLong

/-- A token set of a metadata document is named by something else than a text. -/
def Metadata.NamesBreak (document : Json) : Prop :=
  ∃ fields order name, document = .obj fields ∧
    OrderedMap.get? fields "tokenSetOrder" = some (.arr order) ∧ name ∈ order ∧
      ∀ s, name ≠ .str s

/-- The metadata of a data directory break the loading of settings. -/
def Metadata.BreaksDown (tree : FileTree) (dataDir : Path) (cause : Breakdown) : Prop :=
  DocumentBreaks tree dataDir cause ∨
    cause = .setNameNotText ∧ ∃ document, readDocument tree dataDir = .ok document ∧
      NamesBreak document

/-- Loading the settings breaks down. -/
def ConfigOrigin.BreaksDown (origin : ConfigOrigin) (tree : FileTree) (cause : Breakdown) : Prop :=
  match origin with
  | .settings _ => False
  | .file path => Config.FileBreaks tree path cause
  | .dataDirectory directory => Metadata.BreaksDown tree directory cause
  | .workingDirectory =>
    (∃ fault, tree.findEntry (defaultFile tree) = .error fault ∧ cause = .file fault) ∨
      tree.findEntry (defaultFile tree) = .ok true ∧
        Config.FileBreaks tree (defaultFile tree) cause

/-! ## Settings files -/

/-- Settings that are given are refused with errors only. -/
theorem Config.ofSettings_ne_breakdown (given : Datum) (base : Option Path) :
    Config.ofSettings given base ≠ .error (.breakdown cause) := by
  unfold Config.ofSettings
  split
  · exact nofun
  · split
    · exact nofun
    · exact nofun

theorem Config.ofFile_eq_breakdown_iff {path : Path} :
    Config.ofFile tree path = .error (.breakdown cause) ↔ Config.FileBreaks tree path cause := by
  unfold Config.ofFile
  constructor
  · intro h
    split at h
    · cases h
    · rename_i fault hfault hread
      cases h
      refine .unreadable fault hread ?_
      rintro rfl
      exact hfault rfl
    · rename_i hread
      cases h
      exact .undecodable hread
    · rename_i text hread
      split at h
      · cases h
      · rename_i fault hyaml
        cases h
        exact .scalar text fault hread hyaml
      · exact absurd h (Config.ofSettings_ne_breakdown _ _)
      · cases h
  · intro h
    cases h with
    | unreadable fault hread hfault =>
      rw [hread]
      cases fault with
      | noEntry => exact absurd rfl hfault
      | _ => rfl
    | undecodable hread => rw [hread]
    | scalar text fault hread hyaml =>
      rw [hread]
      simp only [hyaml]

/-! ## Metadata -/

namespace Metadata

/-- Token sets break down exactly if one of them is named by something else than a text. -/
theorem tokenSets_eq_breakdown_iff {document : Json} :
    tokenSets document = .error (.breakdown cause) ↔
      cause = .setNameNotText ∧ NamesBreak document := by
  cases document with
  | obj fields =>
    unfold tokenSets
    simp only
    split
    · rename_i first rest horder
      rw [Lists.mapM_eq_error_iff (.breakdown .setNameNotText)]
      · constructor
        · rintro ⟨hcause, name, hname, hrefused⟩
          refine ⟨Failure.breakdown.inj hcause, fields, _, name, rfl, horder, hname, ?_⟩
          rintro s rfl
          cases hrefused
        · rintro ⟨rfl, fields', order, name, hfields, horder', hname, htext⟩
          cases hfields
          rw [horder] at horder'
          cases horder'
          refine ⟨rfl, name, hname, ?_⟩
          cases name with
          | str s => exact absurd rfl (htext s)
          | _ => rfl
      · intro name e hrefused
        split at hrefused
        · cases hrefused
        · exact (Except.error.inj hrefused).symm
    · rename_i hnone
      refine iff_of_false nofun ?_
      rintro ⟨_, fields', order, name, hfields, horder, hname, _⟩
      cases hfields
      cases order with
      | nil => cases hname
      | cons first rest => exact hnone first rest horder
  | _ =>
    refine iff_of_false nofun ?_
    rintro ⟨_, _, _, _, hobj, _⟩
    cases hobj

theorem configOf_ne_breakdown (sets : List String) (dataDir outputDir : Path)
    (theme : Option String) : configOf sets dataDir outputDir theme ≠ .error (.breakdown cause) := by
  unfold configOf
  split
  · exact nofun
  · simp only
    split
    · exact nofun
    · split
      · exact nofun
      · exact nofun

theorem readDocument_eq_breakdown_iff {dataDir : Path} :
    readDocument tree dataDir = .error (.breakdown cause) ↔
      DocumentBreaks tree dataDir cause := by
  unfold readDocument
  constructor
  · intro h
    split at h
    · cases h
    · rename_i fault hfault hread
      cases h
      refine .unreadable fault hread ?_
      rintro rfl
      exact hfault rfl
    · rename_i hread
      cases h
      exact .undecodable hread
    · rename_i text hread
      split at h
      · cases h
      · cases h
      · rename_i fault hfault hjson
        cases h
        exact .notRead text fault hread hjson hfault
  · intro h
    cases h with
    | unreadable fault hread hfault =>
      rw [hread]
      cases fault with
      | noEntry => exact absurd rfl hfault
      | _ => rfl
    | undecodable hread => rw [hread]
    | notRead text fault hread hjson hfault =>
      rw [hread]
      cases fault with
      | malformed complaint place => exact absurd rfl (hfault complaint place)
      | repeatedKey key => simp only [hjson]
      | integerTooLong => simp only [hjson]

/-- Metadata break down where they are read, or in the names of the token sets. -/
theorem config_eq_breakdown_iff {dataDir : Path} {outputDir : Option Path}
    {theme : Option String} :
    config tree dataDir outputDir theme = .error (.breakdown cause) ↔ BreaksDown tree dataDir cause := by
  unfold config BreaksDown
  simp only [bind, Except.bind]
  rw [← readDocument_eq_breakdown_iff]
  cases readDocument tree dataDir with
  | error failure => simp
  | ok document =>
    simp only [reduceCtorEq, false_or, Except.ok.injEq, exists_eq_left']
    rw [← tokenSets_eq_breakdown_iff]
    cases tokenSets document with
    | error failure => simp
    | ok sets => exact iff_of_false (configOf_ne_breakdown _ _ _ _) nofun

end Metadata

/-! ## Settings from anywhere -/

/-- Loading the settings breaks down exactly for these contents. -/
theorem ConfigOrigin.load_eq_breakdown_iff {origin : ConfigOrigin} :
    origin.load tree = .error (.breakdown cause) ↔ origin.BreaksDown tree cause := by
  unfold load BreaksDown
  cases origin with
  | settings given => exact iff_of_false (Config.ofSettings_ne_breakdown given none) id
  | file path => exact Config.ofFile_eq_breakdown_iff
  | dataDirectory directory => exact Metadata.config_eq_breakdown_iff
  | workingDirectory =>
    simp only
    cases tree.findEntry (defaultFile tree) with
    | error fault => simp [eq_comm]
    | ok found =>
      cases found with
      | false => simp
      | true => simp [Config.ofFile_eq_breakdown_iff]

end DesignTokens
