import Mathlib.Data.List.Forall2
import Mathlib.Data.List.Induction
/-!
# Lists in step

Lists whose members correspond one by one, as results of a function that may have none correspond to
its arguments.
-/

set_option autoImplicit false

namespace DesignTokens.Lists

variable {α β : Type}

/-- A member has a counterpart. -/
theorem exists_right_of_forall₂ {related : α → β → Prop} {xs : List α} {ys : List β}
    (h : List.Forall₂ related xs ys) {x : α} (hmem : x ∈ xs) : ∃ y ∈ ys, related x y := by
  induction h with
  | nil => cases hmem
  | cons hrelated _ ih =>
    cases List.mem_cons.mp hmem with
    | inl heq => exact ⟨_, List.mem_cons_self, heq ▸ hrelated⟩
    | inr hmem =>
      obtain ⟨y, hy, hrel⟩ := ih hmem
      exact ⟨y, List.mem_cons_of_mem _ hy, hrel⟩

/-- Lists whose members have the same images one by one have the same images. -/
theorem map_eq_of_forall₂ {γ : Type} {related : α → β → Prop} {f : α → γ} {g : β → γ}
    {xs : List α} {ys : List β} (h : List.Forall₂ related xs ys)
    (hsame : ∀ x y, related x y → g y = f x) : ys.map g = xs.map f := by
  induction h with
  | nil => rfl
  | cons hrelated _ ih => rw [List.map_cons, List.map_cons, hsame _ _ hrelated, ih]

/-- Members that pass a test and have the given images one by one are such a list and its images. -/
theorem forall₂_and_eq_iff {test : α → Prop} {f : α → β} {xs : List α} {ys : List β} :
    List.Forall₂ (fun x y => test x ∧ f x = y) xs ys ↔ (∀ x ∈ xs, test x) ∧ ys = xs.map f := by
  rw [List.forall₂_and_left, ← List.forall₂_map_left_iff, List.forall₂_eq_eq_eq, eq_comm (a := ys)]

/-- A correspondence turned into another one at the members. -/
theorem forall₂_of_mem_right {related other : α → β → Prop} {xs : List α} {ys : List β}
    (h : List.Forall₂ related xs ys) (himp : ∀ x, ∀ y ∈ ys, related x y → other x y) :
    List.Forall₂ other xs ys := by
  induction h with
  | nil => exact .nil
  | cons hrelated _ ih =>
    exact .cons (himp _ _ List.mem_cons_self hrelated)
      (ih fun x y hy => himp x y (List.mem_cons_of_mem _ hy))

/-- Results for all members of a list are the results in their order. -/
theorem mapM_eq_some_iff {f : α → Option β} {xs : List α} {ys : List β} :
    xs.mapM f = some ys ↔ List.Forall₂ (fun x y => f x = some y) xs ys := by
  induction xs generalizing ys with
  | nil =>
    rw [List.mapM_nil, Option.pure_def, Option.some.injEq, List.forall₂_nil_left_iff, eq_comm]
  | cons x rest ih =>
    rw [List.mapM_cons]
    constructor
    · intro h
      cases hx : f x with
      | none => simp [hx] at h
      | some y =>
        cases hrest : rest.mapM f with
        | none => simp [hx, hrest] at h
        | some later =>
          simp only [hx, hrest, Option.bind_eq_bind, Option.bind_some, Option.pure_def,
            Option.some.injEq] at h
          subst h
          exact .cons hx (ih.mp hrest)
    · intro h
      cases h with
      | cons hx hrest =>
        rw [hx, ih.mpr hrest]
        rfl

/-- A function that has a result for every member has the list of these results. -/
theorem mapM_eq_some_map {f : α → Option β} {g : α → β} {xs : List α}
    (h : ∀ x ∈ xs, f x = some (g x)) : xs.mapM f = some (xs.map g) := by
  rw [mapM_eq_some_iff, List.forall₂_map_right_iff, List.forall₂_same]
  exact h

/-- A function that yields a list of results has one for every member. -/
theorem exists_of_mapM_eq_some {f : α → Option β} {xs : List α} {ys : List β}
    (h : xs.mapM f = some ys) {x : α} (hmem : x ∈ xs) : ∃ y, f x = some y := by
  obtain ⟨y, _, hy⟩ := exists_right_of_forall₂ (mapM_eq_some_iff.mp h) hmem
  exact ⟨y, hy⟩

/-- A list has the results for all of its members, or one of these is refused. -/
theorem mapM_cases {ε : Type} (f : α → Except ε β) (xs : List α) :
    (∃ ys, xs.mapM f = .ok ys ∧ List.Forall₂ (fun x y => f x = .ok y) xs ys) ∨
      ((∃ e, xs.mapM f = .error e) ∧ ∃ x ∈ xs, ∃ e, f x = .error e) := by
  induction xs with
  | nil => exact .inl ⟨[], rfl, .nil⟩
  | cons x rest ih =>
    rw [List.mapM_cons]
    cases hx : f x with
    | error e => exact .inr ⟨⟨e, rfl⟩, x, List.mem_cons_self, e, hx⟩
    | ok y =>
      rcases ih with ⟨ys, hys, hrest⟩ | ⟨⟨e, he⟩, other, hother, hrefused⟩
      · rw [hys]
        exact .inl ⟨y :: ys, rfl, .cons hx hrest⟩
      · rw [he]
        exact .inr ⟨⟨e, rfl⟩, other, List.mem_cons_of_mem _ hother, hrefused⟩

/-- Where all that is refused is refused alike, a list is refused for any of its members. -/
theorem mapM_eq_error_iff {ε : Type} {f : α → Except ε β} (refusal : ε) {e : ε} {xs : List α}
    (hsame : ∀ x e, f x = .error e → e = refusal) :
    xs.mapM f = .error e ↔ e = refusal ∧ ∃ x ∈ xs, f x = .error refusal := by
  induction xs with
  | nil => simp [pure, Except.pure]
  | cons x rest ih =>
    rw [List.mapM_cons]
    cases hx : f x with
    | error e' =>
      have he := hsame x e' hx
      subst he
      simp [bind, Except.bind, hx, eq_comm]
    | ok y =>
      have hrest : (Except.ok y >>= fun y => do return y :: (← rest.mapM f)) = .error e ↔
          rest.mapM f = .error e := by
        simp only [bind, Except.bind, pure, Except.pure]
        cases rest.mapM f with
        | error e' => simp
        | ok ys => simp
      rw [hrest, ih]
      simp [hx]

/-! ## Separators -/

/-- Lists are put together by one separator before each of them but the first. -/
theorem intercalate_cons (separator first : List α) (rest : List (List α)) :
    separator.intercalate (first :: rest) =
      first ++ rest.flatMap fun later => separator ++ later := by
  induction rest generalizing first with
  | nil => simp
  | cons next rest ih =>
    rw [List.intercalate_cons_cons, ih, List.flatMap_cons]
    simp

/-- Between lists that are put together stands nothing but the separator. -/
theorem mem_intercalate {separator x : α} {parts : List (List α)}
    (h : x ∈ [separator].intercalate parts) : x = separator ∨ ∃ part ∈ parts, x ∈ part := by
  induction parts with
  | nil => cases h
  | cons part rest ih =>
    cases rest with
    | nil =>
      rw [List.intercalate_singleton] at h
      exact .inr ⟨part, List.mem_cons_self, h⟩
    | cons next rest =>
      rw [List.intercalate_cons_cons, List.mem_append, List.mem_append, List.mem_singleton] at h
      rcases h with (hpart | hseparator) | hlater
      · exact .inr ⟨part, List.mem_cons_self, hpart⟩
      · exact .inl hseparator
      · rcases ih hlater with hseparator | ⟨part', hpart', hmem⟩
        · exact .inl hseparator
        · exact .inr ⟨part', List.mem_cons_of_mem _ hpart', hmem⟩

/-- Anything but the separator is counted part by part. -/
theorem count_intercalate [DecidableEq α] {separator x : α} (hx : x ≠ separator)
    (parts : List (List α)) : ([separator].intercalate parts).count x = parts.flatten.count x := by
  cases parts with
  | nil => rfl
  | cons first rest =>
    have hnone : [separator].count x = 0 :=
      List.count_eq_zero.mpr fun hmem => hx (List.mem_singleton.mp hmem)
    rw [intercalate_cons, List.count_append, List.flatten_cons, List.count_append]
    congr 1
    induction rest with
    | nil => rfl
    | cons next rest ih =>
      rw [List.flatMap_cons, List.count_append, List.count_append, hnone, ih, List.flatten_cons,
        List.count_append, Nat.zero_add]

theorem mem_intercalate_of_mem {separator part : List α} {x : α} {parts : List (List α)}
    (hpart : part ∈ parts) (hmem : x ∈ part) : x ∈ separator.intercalate parts := by
  cases parts with
  | nil => cases hpart
  | cons first rest =>
    rw [intercalate_cons, List.mem_append]
    rcases List.mem_cons.mp hpart with rfl | hrest
    · exact .inl hmem
    · exact .inr (List.mem_flatMap.mpr ⟨part, hrest, List.mem_append_right _ hmem⟩)

/-- A separator stands right behind the first part, or between later ones. -/
theorem eq_or_exists_of_append_cons {x : α} {first rest before after : List α} (hfirst : x ∉ first)
    (h : first ++ x :: rest = before ++ x :: after) :
    before = first ∧ after = rest ∨
      ∃ later, before = first ++ x :: later ∧ rest = later ++ x :: after := by
  induction first generalizing before with
  | nil =>
    cases before with
    | nil => exact .inl ⟨rfl, (List.cons.inj h).2.symm⟩
    | cons y before =>
      obtain ⟨rfl, hrest⟩ := List.cons.inj h
      exact .inr ⟨before, rfl, hrest⟩
  | cons y first ih =>
    rw [List.mem_cons, not_or] at hfirst
    cases before with
    | nil => exact absurd (List.cons.inj h).1.symm hfirst.1
    | cons z before =>
      obtain ⟨rfl, hlater⟩ := List.cons.inj h
      rcases ih hfirst.2 hlater with ⟨rfl, rfl⟩ | ⟨later, rfl, hrest⟩
      · exact .inl ⟨rfl, rfl⟩
      · exact .inr ⟨later, rfl, hrest⟩

/-- What is dropped ends where the rest begins. -/
theorem dropWhile_append_eq {p : α → Bool} {dropped rest : List α}
    (hdropped : ∀ x ∈ dropped, p x = true) (hrest : ∀ x ∈ rest.head?, p x = false) :
    (dropped ++ rest).dropWhile p = rest := by
  rw [List.dropWhile_append_of_pos hdropped]
  cases rest with
  | nil => rfl
  | cons x rest => rw [List.dropWhile_cons_of_neg (by simp [hrest x rfl])]

/-- What is taken ends where the rest begins. -/
theorem takeWhile_append_eq {p : α → Bool} {taken rest : List α}
    (htaken : ∀ x ∈ taken, p x = true) (hrest : ∀ x ∈ rest.head?, p x = false) :
    (taken ++ rest).takeWhile p = taken := by
  rw [List.takeWhile_append_of_pos htaken]
  cases rest with
  | nil => rw [List.takeWhile_nil, List.append_nil]
  | cons x rest => rw [List.takeWhile_cons_of_neg (by simp [hrest x rfl]), List.append_nil]

/-- Dropping stops at the first member that is not to be dropped. -/
theorem dropWhile_eq_iff {p : α → Bool} {xs rest : List α} : xs.dropWhile p = rest ↔
    (∀ x ∈ rest.head?, p x = false) ∧
      ∃ dropped, xs = dropped ++ rest ∧ ∀ x ∈ dropped, p x = true := by
  constructor
  · rintro rfl
    refine ⟨fun x hx => ?_, xs.takeWhile p, List.takeWhile_append_dropWhile.symm, ?_⟩
    · have hhead := List.head?_dropWhile_not p xs
      rwa [Option.mem_def.mp hx] at hhead
    · exact List.all_eq_true.mp List.all_takeWhile
  · rintro ⟨hrest, dropped, rfl, hdropped⟩
    exact dropWhile_append_eq hdropped hrest

/-! ## Repetitions -/

theorem length_eraseDups_le [BEq α] (xs : List α) : xs.eraseDups.length ≤ xs.length := by
  induction hlength : xs.length using Nat.strongRecOn generalizing xs with
  | ind length ih =>
    cases xs with
    | nil => exact Nat.zero_le _
    | cons x rest =>
      subst hlength
      have hfilter : (rest.filter fun y => !y == x).length ≤ rest.length :=
        List.length_filter_le _ rest
      have hrest := ih _ (Nat.lt_succ_of_le hfilter) (rest.filter fun y => !y == x) rfl
      rw [List.eraseDups_cons, List.length_cons, List.length_cons]
      omega

/-- A list that loses nothing without its repetitions has none. -/
theorem nodup_of_length_eraseDups [BEq α] [LawfulBEq α] {xs : List α}
    (h : xs.eraseDups.length = xs.length) : xs.Nodup := by
  induction xs with
  | nil => exact .nil
  | cons x rest ih =>
    rw [List.eraseDups_cons, List.length_cons, List.length_cons, Nat.add_right_cancel_iff] at h
    have hkept : (rest.filter fun y => !y == x).length = rest.length := by
      have hle := length_eraseDups_le (rest.filter fun y => !y == x)
      have hfilter : (rest.filter fun y => !y == x).length ≤ rest.length :=
        List.length_filter_le _ rest
      omega
    have hall := List.length_filter_eq_length_iff.mp hkept
    rw [List.filter_eq_self.mpr hall] at h
    refine List.nodup_cons.mpr ⟨fun hmem => ?_, ih h⟩
    simpa using hall x hmem

/-- A list without repetitions stays as it is. -/
theorem eraseDups_of_nodup [BEq α] [LawfulBEq α] {xs : List α} (h : xs.Nodup) :
    xs.eraseDups = xs := by
  induction xs with
  | nil => rfl
  | cons x rest ih =>
    obtain ⟨hx, hrest⟩ := List.nodup_cons.mp h
    have hkept : (rest.filter fun y => !y == x) = rest := by
      rw [List.filter_eq_self]
      intro y hy
      simpa using ne_of_mem_of_not_mem hy hx
    rw [List.eraseDups_cons, hkept, ih hrest]

/-- Members without repetition stand in the order of their first occurrences. -/
theorem pairwise_idxOf_eraseDups [BEq α] [LawfulBEq α] (xs : List α) :
    xs.eraseDups.Pairwise fun x y => xs.idxOf x < xs.idxOf y := by
  induction xs using List.reverseRecOn with
  | nil => exact .nil
  | append_singleton xs last ih =>
    have hold {x : α} (hx : x ∈ xs.eraseDups) : (xs ++ [last]).idxOf x = xs.idxOf x :=
      List.idxOf_append_of_mem (List.mem_eraseDups.mp hx)
    have hkept : xs.eraseDups.Pairwise fun x y =>
        (xs ++ [last]).idxOf x < (xs ++ [last]).idxOf y := by
      refine ih.imp_of_mem fun hx hy hlt => ?_
      rwa [hold hx, hold hy]
    rw [List.eraseDups_append]
    by_cases hmem : last ∈ xs
    · have hnone : [last].removeAll xs = [] := by simp [List.removeAll, hmem]
      rwa [hnone, List.eraseDups_nil, List.append_nil]
    · have hone : ([last].removeAll xs).eraseDups = [last] := by
        simp [List.removeAll, hmem, List.eraseDups_cons]
      rw [hone]
      refine List.pairwise_append.mpr ⟨hkept, List.pairwise_singleton _ _, ?_⟩
      intro x hx y hy
      rw [List.mem_singleton.mp hy, hold hx, List.idxOf_append_of_notMem hmem]
      have hlt := List.idxOf_lt_length_of_mem (List.mem_eraseDups.mp hx)
      omega

end DesignTokens.Lists
