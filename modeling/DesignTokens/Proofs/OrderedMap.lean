import DesignTokens.OrderedMap
/-!
# Laws of ordered maps

What looking up, setting and filling by pairs do to the keys and to the values of an ordered map.
The keys of a map that was filled by pairs are the keys of the pairs without repetition, in the
order of their first occurrence; each is mapped to the value of its last pair.
-/

set_option autoImplicit false

namespace DesignTokens.OrderedMap

variable {κ ν μ : Type} [DecidableEq κ]

/-! ## Looking up -/

theorem get?_cons (pair : κ × ν) (rest : OrderedMap κ ν) (key : κ) :
    get? (pair :: rest) key = if pair.1 = key then some pair.2 else get? rest key := rfl

theorem has_iff_mem_keys (map : OrderedMap κ ν) (key : κ) :
    has map key = true ↔ key ∈ keys map :=
  get?_isSome_iff map key

theorem get?_eq_none_iff (map : OrderedMap κ ν) (key : κ) :
    get? map key = none ↔ key ∉ keys map := by
  rw [← get?_isSome_iff, Option.not_isSome_iff_eq_none]

theorem mem_keys_of_get?_eq_some {map : OrderedMap κ ν} {key : κ} {value : ν}
    (h : get? map key = some value) : key ∈ keys map :=
  (get?_isSome_iff map key).mp (by simp [h])

/-- What is found under a key stands in the map. -/
theorem mem_of_get?_eq_some {map : OrderedMap κ ν} {key : κ} {value : ν}
    (h : get? map key = some value) : (key, value) ∈ map := by
  induction map with
  | nil => simp at h
  | cons pair rest ih =>
    rw [get?_cons] at h
    by_cases hkey : pair.1 = key
    · rw [if_pos hkey] at h
      obtain ⟨k, old⟩ := pair
      simp only [Option.some.injEq] at h
      simp_all
    · rw [if_neg hkey] at h
      exact List.mem_cons_of_mem _ (ih h)

/-- A map without repeated keys yields every pair that stands in it. -/
theorem get?_eq_some_of_mem {map : OrderedMap κ ν} {key : κ} {value : ν}
    (hnodup : (keys map).Nodup) (h : (key, value) ∈ map) : get? map key = some value := by
  induction map with
  | nil => simp at h
  | cons pair rest ih =>
    simp only [keys, List.map_cons, List.nodup_cons] at hnodup
    rw [get?_cons]
    cases List.mem_cons.mp h with
    | inl hpair => simp [← hpair]
    | inr hrest =>
      have hne : pair.1 ≠ key := by
        intro heq
        exact hnodup.1 (heq ▸ List.mem_map_of_mem (f := (·.1)) hrest)
      rw [if_neg hne]
      exact ih hnodup.2 hrest

/-- A map without repeated keys is known by its keys and by what is found under them. -/
theorem eq_map_keys {map : OrderedMap κ ν} (hnodup : (keys map).Nodup) (default : ν) :
    map = (keys map).map fun key => (key, (get? map key).getD default) := by
  unfold keys
  rw [List.map_map]
  symm
  calc map.map _ = map.map id := by
        refine List.map_congr_left ?_
        rintro ⟨key, value⟩ hmem
        rw [Function.comp_apply, get?_eq_some_of_mem hnodup hmem]
        rfl
    _ = map := List.map_id map

theorem get?_append (first second : OrderedMap κ ν) (key : κ) :
    get? (first ++ second) key = (get? first key).or (get? second key) := by
  induction first with
  | nil => simp
  | cons pair rest ih =>
    rw [List.cons_append, get?_cons, get?_cons, ih]
    by_cases hkey : pair.1 = key <;> simp [hkey]

/-! ## Setting -/

/-- Setting a key keeps the keys free of repetition. -/
theorem nodup_keys_set {map : OrderedMap κ ν} (h : (keys map).Nodup) (key : κ) (value : ν) :
    (keys (set map key value)).Nodup := by
  rw [keys_set]
  by_cases hmem : key ∈ keys map
  · rwa [if_pos hmem]
  · rw [if_neg hmem]
    refine List.nodup_append.mpr ⟨h, by simp, ?_⟩
    intro a ha b hb hab
    rw [List.mem_singleton] at hb
    exact hmem (hb ▸ hab ▸ ha)

/-- Setting a key to the value that it has changes nothing. -/
theorem set_of_get? {map : OrderedMap κ ν} {key : κ} {value : ν} (h : get? map key = some value) :
    set map key value = map := by
  induction map with
  | nil => cases h
  | cons pair rest ih =>
    obtain ⟨k, old⟩ := pair
    rw [get?_cons] at h
    by_cases hk : k = key
    · rw [if_pos hk, Option.some.injEq] at h
      subst h
      rw [set, if_pos hk]
    · rw [if_neg hk] at h
      rw [set, if_neg hk, ih h]

/-- Setting a new key appends its pair. -/
theorem set_of_not_mem_keys {map : OrderedMap κ ν} {key : κ} (h : key ∉ keys map) (value : ν) :
    set map key value = map ++ [(key, value)] := by
  induction map with
  | nil => rfl
  | cons pair rest ih =>
    obtain ⟨k, old⟩ := pair
    simp only [keys, List.map_cons, List.mem_cons, not_or] at h
    have hne : ¬ k = key := fun heq => h.1 heq.symm
    rw [set, if_neg hne, ih h.2]
    rfl

/-- Erasing a key makes exactly its look-up fail. -/
theorem get?_erase (map : OrderedMap κ ν) (key other : κ) :
    get? (erase map key) other = if key = other then none else get? map other := by
  induction map with
  | nil => simp [erase]
  | cons pair rest ih =>
    by_cases hpair : pair.1 = key
    · have hskip : erase (pair :: rest) key = erase rest key := by
        simp [erase, hpair]
      rw [hskip, ih, get?_cons, hpair]
      by_cases hkey : key = other <;> simp [hkey]
    · have hkeep : erase (pair :: rest) key = pair :: erase rest key := by
        simp [erase, hpair]
      rw [hkeep, get?_cons, get?_cons, ih]
      by_cases hother : pair.1 = other
      · have hkey : ¬ key = other := fun heq => hpair (hother.trans heq.symm)
        simp [hother, hkey]
      · simp [hother]

/-! ## Filling -/

/-- Sets pair after pair. -/
def setAll (map : OrderedMap κ ν) (pairs : List (κ × ν)) : OrderedMap κ ν :=
  pairs.foldl (fun map pair => set map pair.1 pair.2) map

theorem ofPairs_eq_setAll (pairs : List (κ × ν)) : ofPairs pairs = setAll [] pairs := rfl

theorem setAll_cons (map : OrderedMap κ ν) (pair : κ × ν) (pairs : List (κ × ν)) :
    setAll map (pair :: pairs) = setAll (set map pair.1 pair.2) pairs := rfl

/-- The last pair of a key counts, and the map before where there is none. -/
theorem get?_setAll (map : OrderedMap κ ν) (pairs : List (κ × ν)) (key : κ) :
    get? (setAll map pairs) key =
      ((pairs.reverse.find? fun pair => pair.1 = key).map (·.2)).or (get? map key) := by
  induction pairs generalizing map with
  | nil => simp [setAll]
  | cons pair rest ih =>
    rw [setAll_cons, ih, get?_set, List.reverse_cons, List.find?_append]
    cases rest.reverse.find? (fun pair => decide (pair.1 = key)) with
    | some found => simp
    | none => by_cases hkey : pair.1 = key <;> simp [hkey]

/-- New keys follow the old ones in the order of their first occurrence. -/
theorem keys_setAll [BEq κ] [LawfulBEq κ] (map : OrderedMap κ ν) (pairs : List (κ × ν)) :
    keys (setAll map pairs) =
      keys map ++ ((pairs.map (·.1)).filter fun key => key ∉ keys map).eraseDups := by
  induction pairs generalizing map with
  | nil => simp [setAll]
  | cons pair rest ih =>
    rw [setAll_cons, ih, keys_set]
    by_cases hmem : pair.1 ∈ keys map
    · simp [hmem]
    · have hfilter : (rest.map (·.1)).filter (fun key => decide (key ∉ keys map ++ [pair.1])) =
          ((rest.map (·.1)).filter fun key => decide (key ∉ keys map)).filter
            fun key => !key == pair.1 := by
        rw [List.filter_filter]
        apply List.filter_congr
        intro key _
        by_cases h₁ : key ∈ keys map <;> by_cases h₂ : key = pair.1 <;> simp [h₁, h₂]
      rw [if_neg hmem, hfilter]
      simp [hmem, List.eraseDups_cons]

/-- A map that was filled by pairs yields the value of the last pair of a key. -/
theorem get?_ofPairs (pairs : List (κ × ν)) (key : κ) :
    get? (ofPairs pairs) key = (pairs.reverse.find? fun pair => pair.1 = key).map (·.2) := by
  rw [ofPairs_eq_setAll, get?_setAll]
  simp

/-- A map that was filled by pairs has their keys, in the order of their first occurrence. -/
theorem keys_ofPairs [BEq κ] [LawfulBEq κ] (pairs : List (κ × ν)) :
    keys (ofPairs pairs) = (pairs.map (·.1)).eraseDups := by
  rw [ofPairs_eq_setAll, keys_setAll, keys_nil, List.nil_append,
    List.filter_eq_self.mpr (by simp)]

theorem nodup_keys_setAll {map : OrderedMap κ ν} (h : (keys map).Nodup) (pairs : List (κ × ν)) :
    (keys (setAll map pairs)).Nodup := by
  induction pairs generalizing map with
  | nil => exact h
  | cons pair rest ih => exact ih (nodup_keys_set h pair.1 pair.2)

theorem nodup_keys_ofPairs (pairs : List (κ × ν)) : (keys (ofPairs pairs)).Nodup :=
  nodup_keys_setAll (by simp) pairs

/-- Pairs without a repeated key fill a map with just themselves. -/
theorem setAll_of_nodup {map : OrderedMap κ ν} {pairs : List (κ × ν)}
    (h : (keys map ++ pairs.map (·.1)).Nodup) : setAll map pairs = map ++ pairs := by
  induction pairs generalizing map with
  | nil => simp [setAll]
  | cons pair rest ih =>
    have hnew : pair.1 ∉ keys map := by
      intro hmem
      exact (List.nodup_append.mp h).2.2 _ hmem _ (by simp) rfl
    rw [setAll_cons, set_of_not_mem_keys hnew, ih]
    · simp
    · simpa [keys] using h

theorem ofPairs_of_nodup {pairs : List (κ × ν)} (h : (pairs.map (·.1)).Nodup) :
    ofPairs pairs = pairs := by
  rw [ofPairs_eq_setAll, setAll_of_nodup (by simpa using h), List.nil_append]

end DesignTokens.OrderedMap
