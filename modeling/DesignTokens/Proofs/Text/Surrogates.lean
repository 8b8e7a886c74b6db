import DesignTokens.Proofs.FileTree.Places
import DesignTokens.Yaml.ScalarText
/-!
# Surrogates that stand alone

An escape can spell a surrogate without its other half, which is no character; the readers have
U+FFFD for it.  In a text that spells none, every string is read as it is spelled: its characters
tell all the code points that it is written with.
-/

set_option autoImplicit false

namespace DesignTokens

/-! ## Characters and code points -/

namespace Json

/-- No surrogate stands alone in a string of a text, whichever quote it begins at. -/
def SpellsCharacters (text : String) : Prop :=
  ∀ before rest, text.toList = before ++ '"' :: rest → ∀ opening points left,
    readPoints opening rest = .ok (points, left) → ∀ point ∈ points, point.isValidChar

/-- The strings of a text are read as they are spelled. -/
def ReadsAsSpelled (text : String) : Prop :=
  ∀ before rest, text.toList = before ++ '"' :: rest → ∀ opening points left,
    readPoints opening rest = .ok (points, left) →
      (textOf points).toList.map Char.toNat = points

end Json

/-! ## Escapes of scalars -/

namespace Yaml

/-- No numeric escape in a text spells a surrogate, whichever backslash it begins at. -/
def SpellsCharacters (text : String) : Prop :=
  ∀ before e digits, text.toList = before ++ '\\' :: e :: digits → ∀ size n,
    numericEscape? e = some size → Json.hexValue? (digits.take size) = some n →
      n ≤ 0x10FFFF → n.isValidChar

/-- The numeric escapes of a text are read as they are spelled. -/
def ReadsAsSpelled (text : String) : Prop :=
  ∀ before e digits, text.toList = before ++ '\\' :: e :: digits → ∀ size n c,
    numericEscape? e = some size → Json.hexValue? (digits.take size) = some n →
      characterOf n = .ok c → c.toNat = n

end Yaml

/-! ## Files -/

namespace FileTree

variable {tree : FileTree} {settings : Option Path}

/-- No file of a tree spells a surrogate that stands alone in a string, nor the settings file in a
scalar. -/
structure SpellsCharacters (tree : FileTree) (settings : Option Path) : Prop where
  strings : ∀ path text, tree.readText path = .ok text → Json.SpellsCharacters text
  scalars : ∀ path ∈ settings, ∀ text, tree.readText path = .ok text → Yaml.SpellsCharacters text

/-- The strings of all files and the scalars of the settings file are read as they are spelled. -/
structure ReadsAsSpelled (tree : FileTree) (settings : Option Path) : Prop where
  strings : ∀ path text, tree.readText path = .ok text → Json.ReadsAsSpelled text
  scalars : ∀ path ∈ settings, ∀ text, tree.readText path = .ok text → Yaml.ReadsAsSpelled text

end FileTree

end DesignTokens
