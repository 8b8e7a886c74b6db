import DesignTokens.Json.Printer
import DesignTokens.Json.Reader
import DesignTokens.Proofs.OrderedMap
import Mathlib.Algebra.Group.Nat.Defs
import Mathlib.Data.List.Induction
import Mathlib.Data.List.TakeWhile
/-!
# What is read can be written

The reader takes no integer with more digits than the printer writes.  So every value that is read
from a text has a compact form, and a message can show it.
-/

set_option autoImplicit false

namespace DesignTokens

namespace Json

/-! ## Numbers -/

theorem withinDigits_iff (n : Int) :
    withinDigits n = true ↔ n.natAbs < 10 ^ maxIntegerDigits :=
  decide_eq_true_iff

/-- Digits write a number with no more digits than they are. -/
theorem decimalValue_lt {cs : List Char} (h : ∀ c ∈ cs, c.isDigit = true) :
    decimalValue cs < 10 ^ cs.length := by
  induction cs using List.reverseRecOn with
  | nil => decide
  | append_singleton digits last ih =>
    have hdigits : decimalValue digits < 10 ^ digits.length :=
      ih fun c hc => h c (List.mem_append_left _ hc)
    have hlast : last.toNat - '0'.toNat ≤ 9 := by
      have hdigit := h last (List.mem_append_right _ List.mem_cons_self)
      simp only [Char.isDigit, Bool.and_eq_true, decide_eq_true_eq, ge_iff_le] at hdigit
      have hle : last.toNat ≤ 57 := UInt32.le_iff_toNat_le.mp hdigit.2
      change last.toNat - 48 ≤ 9
      omega
    have hvalue : decimalValue (digits ++ [last]) =
        10 * decimalValue digits + (last.toNat - '0'.toNat) := by
      unfold decimalValue
      rw [List.foldl_append]
      rfl
    rw [hvalue, List.length_append, List.length_singleton, Nat.pow_succ]
    omega

theorem decimalValue_lt_of_length_le {cs : List Char} {count : Nat}
    (h : ∀ c ∈ cs, c.isDigit = true) (hlength : cs.length ≤ count) :
    decimalValue cs < 10 ^ count :=
  Nat.lt_of_lt_of_le (decimalValue_lt h) (Nat.pow_le_pow_right (Nat.succ_pos 9) hlength)

theorem isDigit_of_readWhole {cs whole left : List Char} (h : readWhole cs = some (whole, left)) :
    ∀ c ∈ whole, c.isDigit = true := by
  unfold readWhole at h
  split at h
  · cases h
    exact List.forall_mem_singleton.mpr rfl
  · split at h
    · cases h
      exact fun c hc => List.mem_takeWhile_imp hc
    · cases h
  · cases h

theorem isDigit_of_readNumberText? {cs left : List Char} {number : NumberText}
    (h : readNumberText? cs = some (number, left)) : ∀ c ∈ number.whole, c.isDigit = true := by
  unfold readNumberText? at h
  obtain ⟨⟨whole, afterWhole⟩, hwhole, hnumber⟩ := Option.map_eq_some_iff.mp h
  have hsame : whole = number.whole := congrArg (fun read => read.1.whole) hnumber
  exact hsame ▸ isDigit_of_readWhole hwhole

theorem NumberText.isRenderable_of_value {number : NumberText} {json : Json}
    (hdigits : ∀ c ∈ number.whole, c.isDigit = true) (h : number.value = .ok json) :
    json.isRenderable = true := by
  unfold NumberText.value at h
  split at h
  · split at h
    · cases h
    · rename_i hlength
      cases h
      have hsigned (negative : Bool) : (if negative then -(decimalValue number.whole : Int)
          else decimalValue number.whole).natAbs = decimalValue number.whole := by
        cases negative with
        | true => exact Int.natAbs_neg _
        | false => rfl
      rw [isRenderable, withinDigits_iff, hsigned]
      exact decimalValue_lt_of_length_le hdigits (Nat.not_lt.mp hlength)
  · cases h
    rfl

theorem isRenderable_of_mem_wordValues {word : String × Json} (h : word ∈ wordValues) :
    word.2.isRenderable = true := by
  revert word
  simp only [wordValues, List.forall_mem_cons]
  exact ⟨rfl, rfl, rfl, rfl, rfl, rfl, List.forall_mem_nil _⟩

theorem isRenderable_of_readAtom {cs left : List Char} {json : Json}
    (h : readAtom cs = .ok (json, left)) : json.isRenderable = true := by
  unfold readAtom at h
  split at h
  · rename_i found hfound
    obtain ⟨word, hmem, hword⟩ := List.exists_of_findSome?_eq_some hfound
    obtain ⟨rest, _, hpair⟩ := Option.map_eq_some_iff.mp hword
    cases h
    cases hpair
    exact isRenderable_of_mem_wordValues hmem
  · split at h
    · rename_i number rest hnumber
      cases hvalue : number.value with
      | error stop =>
        rw [hvalue] at h
        cases h
      | ok value =>
        rw [hvalue] at h
        cases h
        exact NumberText.isRenderable_of_value (isDigit_of_readNumberText? hnumber) hvalue
    · cases h

/-! ## Values -/

theorem haveRenderable_iff (fields : Fields) :
    haveRenderable fields = true ↔ ∀ field ∈ fields, field.2.isRenderable = true := by
  induction fields with
  | nil => simp [haveRenderable]
  | cons field fields ih => simp [haveRenderable, ih]

/-- The fields of an object have the values that stand in the text. -/
theorem KeyPolicy.haveRenderable_of_settle {policy : KeyPolicy} {members : Members}
    {fields : Fields} (hmembers : ∀ member ∈ members, member.2.isRenderable = true)
    (h : policy.settle members = .ok fields) : haveRenderable fields = true := by
  have hfields {settled : Members} (hsettled : ∀ member ∈ settled, member.2.isRenderable = true) :
      haveRenderable (fieldsOf settled) = true := by
    rw [haveRenderable_iff, fieldsOf, List.forall_mem_map]
    exact hsettled
  unfold settle at h
  split at h
  · cases h
    refine hfields fun member hmember => ?_
    have hget := OrderedMap.get?_eq_some_of_mem (OrderedMap.nodup_keys_ofPairs members) hmember
    rw [OrderedMap.get?_ofPairs] at hget
    obtain ⟨pair, hfind, hvalue⟩ := Option.map_eq_some_iff.mp hget
    rw [← hvalue]
    exact hmembers pair (List.mem_reverse.mp (List.mem_of_find?_eq_some hfind))
  · split at h
    · cases h
    · cases h
      exact hfields hmembers

theorem exists_of_map_eq_ok {α β : Type} {first : Except Stop α} {f : α → β} {result : β}
    (h : first.map f = .ok result) : ∃ value, first = .ok value ∧ f value = result := by
  cases first with
  | error stop => cases h
  | ok value => exact ⟨value, rfl, Except.ok.inj h⟩

theorem exists_of_bind_eq_ok {α β : Type} {first : Except Stop α} {next : α → Except Stop β}
    {result : β} (h : first >>= next = .ok result) :
    ∃ value, first = .ok value ∧ next value = .ok result := by
  cases first with
  | error stop => cases h
  | ok value => exact ⟨value, rfl, h⟩

mutual

theorem isRenderable_of_readValue {policy : KeyPolicy} {fuel : Nat} {cs left : List Char}
    {json : Json} (h : readValue policy fuel cs = .ok (json, left)) :
    json.isRenderable = true := by
  cases fuel with
  | zero => cases h
  | succ fuel =>
    unfold readValue at h
    split at h
    · obtain ⟨_, _, hread⟩ := exists_of_map_eq_ok h
      cases hread
      rfl
    · split at h
      · cases h
        rfl
      · obtain ⟨⟨members, rest⟩, hmembers, hnext⟩ := exists_of_bind_eq_ok h
        obtain ⟨fields, hfields, hread⟩ := exists_of_bind_eq_ok hnext
        cases hread
        exact KeyPolicy.haveRenderable_of_settle (isRenderable_of_readMembers hmembers) hfields
    · split at h
      · cases h
        rfl
      · obtain ⟨⟨items, rest⟩, hitems, hread⟩ := exists_of_map_eq_ok h
        cases hread
        exact areRenderable_of_readItems hitems
    · exact isRenderable_of_readAtom h

theorem isRenderable_of_readMembers {policy : KeyPolicy} {fuel : Nat} {cs left : List Char}
    {members : Members} (h : readMembers policy fuel cs = .ok (members, left)) :
    ∀ member ∈ members, member.2.isRenderable = true := by
  cases fuel with
  | zero => cases h
  | succ fuel =>
    unfold readMembers at h
    split at h
    · obtain ⟨⟨key, afterKey⟩, _, hvalue⟩ := exists_of_bind_eq_ok h
      simp only at hvalue
      split at hvalue
      · obtain ⟨⟨value, afterValue⟩, hread, hlater⟩ := exists_of_bind_eq_ok hvalue
        simp only at hlater
        have hfirst := isRenderable_of_readValue hread
        split at hlater
        · cases hlater
          exact List.forall_mem_singleton.mpr hfirst
        · obtain ⟨⟨later, rest⟩, hmembers, hall⟩ := exists_of_bind_eq_ok hlater
          cases hall
          exact List.forall_mem_cons.mpr ⟨hfirst, isRenderable_of_readMembers hmembers⟩
        · cases hlater
      · cases hvalue
    · cases h

theorem areRenderable_of_readItems {policy : KeyPolicy} {fuel : Nat} {cs left : List Char}
    {items : List Json} (h : readItems policy fuel cs = .ok (items, left)) :
    areRenderable items = true := by
  cases fuel with
  | zero => cases h
  | succ fuel =>
    unfold readItems at h
    obtain ⟨⟨value, afterValue⟩, hread, hlater⟩ := exists_of_bind_eq_ok h
    simp only at hlater
    have hfirst := isRenderable_of_readValue hread
    split at hlater
    · cases hlater
      simp [areRenderable, hfirst]
    · obtain ⟨⟨later, rest⟩, hitems, hall⟩ := exists_of_bind_eq_ok hlater
      cases hall
      simp [areRenderable, hfirst, areRenderable_of_readItems hitems]
    · cases hlater

end

/-- Every value that is read from a text can be written. -/
theorem isRenderable_of_read {policy : KeyPolicy} {text : String} {json : Json}
    (h : read policy text = .ok json) : json.isRenderable = true := by
  unfold read at h
  simp only at h
  cases hdocument : readDocument policy text.toList with
  | error stop =>
    rw [hdocument] at h
    cases h
  | ok value =>
    rw [hdocument] at h
    cases h
    unfold readDocument at hdocument
    split at hdocument
    · cases hdocument
    · obtain ⟨⟨value, left⟩, hread, hall⟩ := exists_of_bind_eq_ok hdocument
      simp only at hall
      split at hall
      · cases hall
        exact isRenderable_of_readValue hread
      · cases hall

end Json

end DesignTokens
