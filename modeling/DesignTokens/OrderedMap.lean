/-!
# Ordered maps

Maps that remember in which order their keys were first set, as lists of pairs.  Looking up takes
the first pair of a key; setting an old key keeps its place, setting a new one appends.
-/

set_option autoImplicit false

namespace DesignTokens

/-- Pairs of keys and values, in order. -/
abbrev OrderedMap (κ ν : Type) := List (κ × ν)

namespace OrderedMap

variable {κ ν : Type} [DecidableEq κ]

/-- The value under a key. -/
def get? (map : OrderedMap κ ν) (key : κ) : Option ν :=
  match map with
  | [] => none
  | (k, value) :: rest => if k = key then some value else get? rest key

/-- Whether a key is set. -/
def has (map : OrderedMap κ ν) (key : κ) : Bool :=
  (get? map key).isSome

/-- Sets the value under a key. -/
def set (map : OrderedMap κ ν) (key : κ) (value : ν) : OrderedMap κ ν :=
  match map with
  | [] => [(key, value)]
  | (k, old) :: rest => if k = key then (k, value) :: rest else (k, old) :: set rest key value

/-- Sets pair after pair, so that the last value of a key counts, at the place of the first. -/
def ofPairs (pairs : List (κ × ν)) : OrderedMap κ ν :=
  pairs.foldl (fun map pair => set map pair.1 pair.2) []

/-- The keys, in order. -/
def keys (map : OrderedMap κ ν) : List κ :=
  map.map (·.1)

/-- Removes every pair of a key. -/
def erase (map : OrderedMap κ ν) (key : κ) : OrderedMap κ ν :=
  map.filter fun pair => pair.1 ≠ key

omit [DecidableEq κ] in
@[simp] theorem keys_nil : keys ([] : OrderedMap κ ν) = [] := rfl

@[simp] theorem get?_nil (key : κ) : get? ([] : OrderedMap κ ν) key = none := rfl

/-- Setting a key makes exactly its look-up give the new value. -/
theorem get?_set (map : OrderedMap κ ν) (key other : κ) (value : ν) :
    get? (set map key value) other = if key = other then some value else get? map other := by
  induction map with
  | nil => simp [set, get?]
  | cons pair rest ih =>
    obtain ⟨k, old⟩ := pair
    by_cases hk : k = key
    · by_cases ho : key = other <;> simp [set, get?, hk, ho]
    · by_cases ho : k = other
      · subst ho
        have hne : ¬ key = k := fun h => hk h.symm
        simp [set, get?, hk, hne]
      · simp [set, get?, hk, ho, ih]

/-- A key is set exactly if it is among the keys. -/
theorem get?_isSome_iff (map : OrderedMap κ ν) (key : κ) :
    (get? map key).isSome ↔ key ∈ keys map := by
  induction map with
  | nil => simp [get?, keys]
  | cons pair rest ih =>
    obtain ⟨k, old⟩ := pair
    by_cases hk : k = key
    · simp [get?, keys, hk]
    · have hk' : ¬ key = k := fun h => hk h.symm
      simpa [get?, keys, hk, hk'] using ih

/-- Setting an old key keeps the keys; setting a new one appends it. -/
theorem keys_set (map : OrderedMap κ ν) (key : κ) (value : ν) :
    keys (set map key value) = if key ∈ keys map then keys map else keys map ++ [key] := by
  induction map with
  | nil => simp [set, keys]
  | cons pair rest ih =>
    obtain ⟨k, old⟩ := pair
    by_cases hk : k = key
    · simp [set, keys, hk]
    · have hk' : ¬ key = k := fun h => hk h.symm
      simp only [keys, List.map_cons, set, hk, if_false, List.mem_cons, hk', false_or] at ih ⊢
      by_cases hm : key ∈ List.map (fun x => x.fst) rest <;> simp [ih, hm]

end OrderedMap

end DesignTokens
