import DesignTokens.Json.Printer
import Mathlib.Algebra.Group.Nat.Defs
/-!
# Printed strings can be cut off

The escapes of characters form a prefix code, so a printed string that is followed by anything tells
the string and what follows.  A character beyond the basic plane has two escaped units, and its
first unit is the escape of no character.
-/

set_option autoImplicit false

namespace DesignTokens.Json

/-! ## Hexadecimal digits -/

theorem length_hexDigits (count n : Nat) : (Text.hexDigits count n).length = count := by
  induction count generalizing n with
  | zero => rfl
  | succ count ih => rw [Text.hexDigits, List.length_append, ih, List.length_singleton]

theorem digitChar_inj {a b : Nat} (ha : a < 16) (hb : b < 16)
    (h : Nat.digitChar a = Nat.digitChar b) : a = b := by
  have hall : ∀ a < 16, ∀ b < 16, Nat.digitChar a = Nat.digitChar b → a = b := by decide
  exact hall a ha b hb h

/-- As many digits as a number has tell the number. -/
theorem hexDigits_inj {count m n : Nat} (hm : m < 16 ^ count) (hn : n < 16 ^ count)
    (h : Text.hexDigits count m = Text.hexDigits count n) : m = n := by
  induction count generalizing m n with
  | zero => omega
  | succ count ih =>
    rw [Text.hexDigits, Text.hexDigits] at h
    obtain ⟨hhigh, hlow⟩ := List.append_inj' h rfl
    have hquotient : m / 16 = n / 16 := by
      refine ih ?_ ?_ hhigh <;> rw [Nat.pow_succ] at hm hn <;> omega
    have hdigit : m % 16 = n % 16 :=
      digitChar_inj (Nat.mod_lt _ (by decide)) (Nat.mod_lt _ (by decide)) (List.cons.inj hlow).1
    omega

/-- The escape of a unit, and what follows it, can be told apart. -/
theorem unitEscape_append_inj {m n : Nat} {s t : List Char} (hm : m < 16 ^ 4) (hn : n < 16 ^ 4)
    (h : unitEscape m ++ s = unitEscape n ++ t) : m = n ∧ s = t := by
  unfold unitEscape at h
  obtain ⟨hdigits, hrest⟩ := List.append_inj h (by simp [length_hexDigits])
  refine ⟨hexDigits_inj hm hn ?_, hrest⟩
  exact (List.cons.inj (List.cons.inj hdigits).2).2

/-! ## Escapes -/

/-- The characters with an escape of one letter. -/
def shortEscapes : List (Char × Char) :=
  [('"', '"'), ('\\', '\\'), ('\n', 'n'), ('\r', 'r'), ('\t', 't'), ('\x08', 'b'), ('\x0c', 'f')]

/-- The forms in which a character stands inside a string. -/
inductive Escaped (c : Char) : List Char → Prop where
  | short (letter : Char) (h : (c, letter) ∈ shortEscapes) : Escaped c ['\\', letter]
  | plain (hquote : c ≠ '"') (hmark : c ≠ '\\') : Escaped c [c]
  | unit (h : c.toNat < 0x10000) : Escaped c (unitEscape c.toNat)
  | pair (h : 0x10000 ≤ c.toNat) : Escaped c
      (unitEscape (0xD800 + (c.toNat - 0x10000) / 0x400) ++
        unitEscape (0xDC00 + (c.toNat - 0x10000) % 0x400))

theorem escaped_escapeChar (c : Char) : Escaped c (escapeChar c) := by
  by_cases hquote : c = '"'
  · subst hquote
    exact .short '"' (by decide)
  by_cases hmark : c = '\\'
  · subst hmark
    exact .short '\\' (by decide)
  by_cases hline : c = '\n'
  · subst hline
    exact .short 'n' (by decide)
  by_cases hreturn : c = '\r'
  · subst hreturn
    exact .short 'r' (by decide)
  by_cases htab : c = '\t'
  · subst htab
    exact .short 't' (by decide)
  by_cases hback : c = '\x08'
  · subst hback
    exact .short 'b' (by decide)
  by_cases hfeed : c = '\x0c'
  · subst hfeed
    exact .short 'f' (by decide)
  rw [escapeChar, if_neg hquote, if_neg hmark, if_neg hline, if_neg hreturn, if_neg htab,
    if_neg hback, if_neg hfeed]
  split
  · exact .plain hquote hmark
  · split
    · rename_i hunit
      exact .unit hunit
    · rename_i hpair
      exact .pair (Nat.le_of_not_lt hpair)

theorem Escaped.exists_cons {c : Char} {cs : List Char} (h : Escaped c cs) :
    ∃ first rest, cs = first :: rest ∧ first ≠ '"' := by
  cases h with
  | short letter h => exact ⟨'\\', _, rfl, by decide⟩
  | plain hquote hmark => exact ⟨c, [], rfl, hquote⟩
  | unit h => exact ⟨'\\', _, rfl, by decide⟩
  | pair h => exact ⟨'\\', _, rfl, by decide⟩

theorem short_letter_inj {c d letter : Char} (hc : (c, letter) ∈ shortEscapes)
    (hd : (d, letter) ∈ shortEscapes) : c = d := by
  have hall : ∀ p ∈ shortEscapes, ∀ q ∈ shortEscapes, p.2 = q.2 → p.1 = q.1 := by decide
  exact hall _ hc _ hd rfl

theorem short_letter_ne_u {c letter : Char} (h : (c, letter) ∈ shortEscapes) : letter ≠ 'u' := by
  have hall : ∀ p ∈ shortEscapes, p.2 ≠ 'u' := by decide
  exact hall _ h

theorem toNat_lt (c : Char) : c.toNat < 0x110000 := by
  cases c.valid with
  | inl h => exact Nat.lt_trans h (by decide)
  | inr h => exact h.2

/-- The first unit of a pair is no character. -/
theorem toNat_ne_first_unit (c : Char) {offset : Nat} (h : offset < 0x100000) :
    c.toNat ≠ 0xD800 + offset / 0x400 := by
  intro heq
  have hbound : offset / 0x400 < 0x400 := Nat.div_lt_of_lt_mul h
  have hvalid : c.toNat < 0xD800 ∨ 0xDFFF < c.toNat ∧ c.toNat < 0x110000 := c.valid
  omega

/-- Escapes are a prefix code: an escaped character and what follows it can be told apart. -/
theorem Escaped.append_inj {c d : Char} {xs ys s t : List Char} (hc : Escaped c xs)
    (hd : Escaped d ys) (h : xs ++ s = ys ++ t) : c = d ∧ s = t := by
  have hcLt := toNat_lt c
  have hdLt := toNat_lt d
  cases hc with
  | short letter hshort =>
    cases hd with
    | short letter' hshort' =>
      obtain ⟨hletter, hrest⟩ := List.cons.inj (List.cons.inj h).2
      subst hletter
      exact ⟨short_letter_inj hshort hshort', hrest⟩
    | plain hquote hmark => exact absurd (List.cons.inj h).1.symm hmark
    | unit hunit =>
      exact absurd (List.cons.inj (List.cons.inj h).2).1 (short_letter_ne_u hshort)
    | pair hpair =>
      exact absurd (List.cons.inj (List.cons.inj h).2).1 (short_letter_ne_u hshort)
  | plain hquote hmark =>
    cases hd with
    | short letter' hshort' => exact absurd (List.cons.inj h).1 hmark
    | plain hquote' hmark' => exact List.cons.inj h
    | unit hunit => exact absurd (List.cons.inj h).1 hmark
    | pair hpair => exact absurd (List.cons.inj h).1 hmark
  | unit hunit =>
    cases hd with
    | short letter' hshort' =>
      exact absurd (List.cons.inj (List.cons.inj h).2).1.symm (short_letter_ne_u hshort')
    | plain hquote hmark => exact absurd (List.cons.inj h).1.symm hmark
    | unit hunit' =>
      obtain ⟨hnat, hrest⟩ := unitEscape_append_inj hunit hunit' h
      exact ⟨Char.toNat_inj.mp hnat, hrest⟩
    | pair hpair =>
      rw [List.append_assoc] at h
      obtain ⟨hnat, _⟩ := unitEscape_append_inj hunit (by omega) h
      exact absurd hnat (toNat_ne_first_unit c (by omega))
  | pair hpair =>
    cases hd with
    | short letter' hshort' =>
      exact absurd (List.cons.inj (List.cons.inj h).2).1.symm (short_letter_ne_u hshort')
    | plain hquote hmark => exact absurd (List.cons.inj h).1.symm hmark
    | unit hunit =>
      rw [List.append_assoc] at h
      obtain ⟨hnat, _⟩ := unitEscape_append_inj (by omega) hunit h
      exact absurd hnat.symm (toNat_ne_first_unit d (by omega))
    | pair hpair' =>
      rw [List.append_assoc, List.append_assoc] at h
      obtain ⟨hhigh, hsecond⟩ := unitEscape_append_inj (by omega) (by omega) h
      obtain ⟨hlow, hrest⟩ := unitEscape_append_inj (by omega) (by omega) hsecond
      refine ⟨Char.toNat_inj.mp ?_, hrest⟩
      omega

/-! ## Strings -/

/-- Escaped characters up to the closing quote tell the characters and what follows. -/
theorem escapes_append_inj {cs ds s t : List Char}
    (h : cs.flatMap escapeChar ++ '"' :: s = ds.flatMap escapeChar ++ '"' :: t) :
    cs = ds ∧ s = t := by
  induction cs generalizing ds with
  | nil =>
    cases ds with
    | nil => exact ⟨rfl, (List.cons.inj h).2⟩
    | cons d ds =>
      obtain ⟨first, rest, hcons, hfirst⟩ := (escaped_escapeChar d).exists_cons
      rw [List.flatMap_cons, hcons] at h
      exact absurd (List.cons.inj h).1.symm hfirst
  | cons c cs ih =>
    cases ds with
    | nil =>
      obtain ⟨first, rest, hcons, hfirst⟩ := (escaped_escapeChar c).exists_cons
      rw [List.flatMap_cons, hcons] at h
      exact absurd (List.cons.inj h).1 hfirst
    | cons d ds =>
      rw [List.flatMap_cons, List.flatMap_cons, List.append_assoc, List.append_assoc] at h
      obtain ⟨rfl, hrest⟩ := (escaped_escapeChar c).append_inj (escaped_escapeChar d) h
      obtain ⟨rfl, hend⟩ := ih hrest
      exact ⟨rfl, hend⟩

theorem renderString_toList (s : String) :
    (renderString s).toList = '"' :: s.toList.flatMap escapeChar ++ ['"'] :=
  String.toList_ofList

/-- A printed string tells the string and what follows it. -/
theorem renderString_append_inj {first second : String} {s t : List Char}
    (h : (renderString first).toList ++ s = (renderString second).toList ++ t) :
    first = second ∧ s = t := by
  rw [renderString_toList, renderString_toList] at h
  simp only [List.cons_append, List.append_assoc, List.nil_append, List.cons.injEq, true_and] at h
  obtain ⟨hcs, hend⟩ := escapes_append_inj h
  exact ⟨String.toList_inj.mp hcs, hend⟩

end DesignTokens.Json
