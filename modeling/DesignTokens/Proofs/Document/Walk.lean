import DesignTokens.Document
import Mathlib.Data.List.Basic
/-!
# Walks through a document

A walk goes through the groups of a document, from the root on, and meets their members in document
order; members that describe their group are passed over, and a token is not entered.  So the walk
meets just the nodes that keys lead to through groups.  If no group repeats a key, no token that is
met stands above another one or at the same path.
-/

set_option autoImplicit false

namespace DesignTokens.Document

open Datum (Pairs)

/-- A node at its path, as a walk meets it. -/
structure Sight where
  path : TokenPath
  node : Datum
  deriving Repr, Inhabited

mutual

/-- What a walk meets at a member, itself first. -/
def sightsAt (path : TokenPath) : Datum → List Sight
  | .map fields =>
    ⟨path, .map fields⟩ :: if isTokenNode (.map fields) then [] else sightsIn path fields
  | node => [⟨path, node⟩]

/-- What a walk meets among the members of a group. -/
def sightsIn (path : TokenPath) : Pairs → List Sight
  | [] => []
  | (.str key, node) :: rest =>
    if isMetaKey key then sightsIn path rest
    else sightsAt (path ++ [key]) node ++ sightsIn path rest
  | _ :: rest => sightsIn path rest

end

/-- What a walk through a document meets, the root first.  The root is a group, whatever it holds. -/
def walk (root : Pairs) : List Sight :=
  ⟨[], .map root⟩ :: sightsIn [] root

namespace Sight

/-- Whether a sight is a token: a token node that is not the root. -/
def isToken (sight : Sight) : Bool :=
  !sight.path.isEmpty && isTokenNode sight.node

/-- A mapping does not repeat a key. -/
def HasDistinctKeys (sight : Sight) : Prop :=
  ∀ fields, sight.node = .map fields → (fields.map (·.1)).Nodup

end Sight

variable {path : TokenPath} {fields members rest : Pairs} {key : String} {node : Datum}
  {sight : Sight}

/-! ## Steps of a walk -/

/-- A walk meets a member before anything below it. -/
theorem exists_sightsAt_eq_cons (path : TokenPath) (node : Datum) :
    ∃ below, sightsAt path node = ⟨path, node⟩ :: below := by
  cases node <;> exact ⟨_, rfl⟩

theorem sightsAt_of_token (h : isTokenNode (.map fields) = true) :
    sightsAt path (.map fields) = [⟨path, .map fields⟩] := by
  rw [sightsAt, if_pos h]

theorem sightsAt_of_group (h : isTokenNode (.map fields) = false) :
    sightsAt path (.map fields) = ⟨path, .map fields⟩ :: sightsIn path fields := by
  rw [sightsAt, if_neg (by simp [h])]

theorem sightsIn_of_meta (h : isMetaKey key = true) :
    sightsIn path ((.str key, node) :: rest) = sightsIn path rest := by
  rw [sightsIn, if_pos h]

theorem sightsIn_of_member (h : isMetaKey key = false) :
    sightsIn path ((.str key, node) :: rest) =
      sightsAt (path ++ [key]) node ++ sightsIn path rest := by
  rw [sightsIn, if_neg (by simp [h])]

/-! ## What keys lead to -/

/-- Keys lead from a group to a node: each stands in the group before it and describes nothing, and
all groups on the way are no tokens. -/
inductive Descends : Pairs → TokenPath → Datum → Prop where
  | member {fields : Pairs} {key : String} {node : Datum} (hmem : (.str key, node) ∈ fields)
      (hkey : isMetaKey key = false) : Descends fields [key] node
  | through {fields inner : Pairs} {key : String} {keys : TokenPath} {node : Datum}
      (hmem : (.str key, .map inner) ∈ fields) (hkey : isMetaKey key = false)
      (hgroup : isTokenNode (.map inner) = false) (hrest : Descends inner keys node) :
      Descends fields (key :: keys) node

theorem Descends.mono {keys : TokenPath} (h : Descends fields keys node)
    (hsub : ∀ pair ∈ fields, pair ∈ members) : Descends members keys node := by
  cases h with
  | member hmem hkey => exact .member (hsub _ hmem) hkey
  | through hmem hkey hgroup hrest => exact .through (hsub _ hmem) hkey hgroup hrest

theorem Descends.ne_nil {keys : TokenPath} (h : Descends fields keys node) : keys ≠ [] := by
  cases h <;> exact List.cons_ne_nil _ _

mutual

/-- A walk meets nothing at a member but the member, and what keys lead to if it is a group. -/
theorem of_mem_sightsAt {path : TokenPath} : ∀ (node : Datum) {sight : Sight},
    sight ∈ sightsAt path node → sight = ⟨path, node⟩ ∨ ∃ inner keys, node = .map inner ∧
      isTokenNode node = false ∧ sight.path = path ++ keys ∧ Descends inner keys sight.node
  | .map fields, sight, h => by
    cases htoken : isTokenNode (.map fields) with
    | true =>
      rw [sightsAt_of_token htoken, List.mem_singleton] at h
      exact .inl h
    | false =>
      rw [sightsAt_of_group htoken] at h
      rcases List.mem_cons.mp h with rfl | hbelow
      · exact .inl rfl
      · obtain ⟨keys, hpath, hdescends⟩ := of_mem_sightsIn fields hbelow
        exact .inr ⟨fields, keys, rfl, rfl, hpath, hdescends⟩
  | .null, _, h | .bool _, _, h | .int _, _, h | .float _, _, h | .str _, _, h | .day _, _, h
  | .moment _, _, h | .list _, _, h => by
    unfold sightsAt at h
    exact .inl (List.mem_singleton.mp h)

theorem of_mem_sightsIn {path : TokenPath} : ∀ (members : Pairs) {sight : Sight},
    sight ∈ sightsIn path members →
      ∃ keys, sight.path = path ++ keys ∧ Descends members keys sight.node
  | [], _, h => by
    unfold sightsIn at h
    cases h
  | (key, node) :: rest, sight, h => by
    have hlater (hrest : sight ∈ sightsIn path rest) :
        ∃ keys, sight.path = path ++ keys ∧ Descends ((key, node) :: rest) keys sight.node := by
      obtain ⟨keys, hpath, hdescends⟩ := of_mem_sightsIn rest hrest
      exact ⟨keys, hpath, hdescends.mono fun _ => List.mem_cons_of_mem _⟩
    unfold sightsIn at h
    split at h
    · cases h
    · rename_i key' _ _ heq
      cases heq
      split at h
      · exact hlater h
      · rename_i hkey
        rw [Bool.not_eq_true] at hkey
        rcases List.mem_append.mp h with hfirst | hrest
        · rcases of_mem_sightsAt node hfirst with rfl | ⟨inner, keys, rfl, hgroup, hpath, hdescends⟩
          · exact ⟨[key'], rfl, .member List.mem_cons_self hkey⟩
          · refine ⟨key' :: keys, ?_, .through List.mem_cons_self hkey hgroup hdescends⟩
            rw [hpath, List.append_assoc, List.singleton_append]
        · exact hlater hrest
    · rename_i heq
      cases heq
      exact hlater h

end

/-- A walk meets every member of a group, and what is below it. -/
theorem sightsAt_subset_sightsIn (hmem : (.str key, node) ∈ members) (hkey : isMetaKey key = false) :
    ∀ sight ∈ sightsAt (path ++ [key]) node, sight ∈ sightsIn path members := by
  intro sight hsight
  induction members with
  | nil => cases hmem
  | cons pair rest ih =>
    rcases List.mem_cons.mp hmem with rfl | hrest
    · rw [sightsIn_of_member hkey]
      exact List.mem_append_left _ hsight
    · unfold sightsIn
      split
      · contradiction
      · rename_i heq
        cases heq
        split
        · exact ih hrest
        · exact List.mem_append_right _ (ih hrest)
      · rename_i heq
        cases heq
        exact ih hrest

/-- A walk meets all that keys lead to. -/
theorem Descends.mem_sightsIn {keys : TokenPath} (h : Descends members keys node) (path : TokenPath) :
    ⟨path ++ keys, node⟩ ∈ sightsIn path members := by
  -- The walk goes on below a group with the key added to its path, so the path is left open.
  induction h generalizing path with
  | member hmem hkey =>
    obtain ⟨below, hbelow⟩ := exists_sightsAt_eq_cons (path ++ [_]) _
    exact sightsAt_subset_sightsIn hmem hkey _ (hbelow ▸ List.mem_cons_self)
  | @through fields inner key keys node hmem hkey hgroup hrest ih =>
    refine sightsAt_subset_sightsIn hmem hkey _ ?_
    rw [sightsAt_of_group hgroup]
    have hmet := ih (path ++ [key])
    rw [List.append_assoc, List.singleton_append] at hmet
    exact List.mem_cons_of_mem _ hmet

/-- A walk through a document meets its root, and what keys lead to from there. -/
theorem mem_walk_iff {root : Pairs} : ⟨path, node⟩ ∈ walk root ↔
    (path = [] ∧ node = .map root) ∨ Descends root path node := by
  unfold walk
  rw [List.mem_cons, Sight.mk.injEq]
  refine or_congr_right ⟨fun h => ?_, fun h => ?_⟩
  · obtain ⟨keys, rfl, hdescends⟩ := of_mem_sightsIn root h
    exact hdescends
  · exact h.mem_sightsIn []

/-- The tokens that a walk meets are the token nodes that keys lead to. -/
theorem mem_tokens_iff {root : Pairs} : ⟨path, node⟩ ∈ (walk root).filter (·.isToken) ↔
    Descends root path node ∧ isTokenNode node = true := by
  rw [List.mem_filter, mem_walk_iff, Sight.isToken, Bool.and_eq_true, Bool.not_eq_true',
    List.isEmpty_eq_false_iff]
  constructor
  · rintro ⟨⟨rfl, _⟩ | hdescends, hne, htoken⟩
    · exact absurd rfl hne
    · exact ⟨hdescends, htoken⟩
  · exact fun ⟨hdescends, htoken⟩ => ⟨.inr hdescends, hdescends.ne_nil, htoken⟩

/-! ## Tokens apart -/

/-- Neither of two sights stands above the other one, or where it stands. -/
def Sight.Apart (sight other : Sight) : Prop :=
  ¬ sight.path <+: other.path ∧ ¬ other.path <+: sight.path

theorem prefix_of_mem_sightsAt (h : sight ∈ sightsAt path node) : path <+: sight.path := by
  rcases of_mem_sightsAt node h with rfl | ⟨_, keys, _, _, hpath, _⟩
  · exact List.prefix_rfl
  · exact ⟨keys, hpath.symm⟩

/-- What is met among members stands below the key of one of them. -/
theorem exists_key_of_mem_sightsIn (h : sight ∈ sightsIn path members) :
    ∃ key node, (Datum.str key, node) ∈ members ∧ path ++ [key] <+: sight.path := by
  obtain ⟨keys, hpath, hdescends⟩ := of_mem_sightsIn members h
  have hbelow (key : String) (keys : TokenPath) : path ++ [key] <+: path ++ key :: keys :=
    ⟨keys, by rw [List.append_assoc, List.singleton_append]⟩
  cases hdescends with
  | member hmem _ => exact ⟨_, _, hmem, hpath ▸ hbelow _ _⟩
  | through hmem _ _ _ => exact ⟨_, _, hmem, hpath ▸ hbelow _ _⟩

/-- What stands below different keys of one group is apart. -/
theorem Sight.apart_of_keys {other : Sight} {key key' : String} (hne : key ≠ key')
    (h : path ++ [key] <+: sight.path) (h' : path ++ [key'] <+: other.path) :
    sight.Apart other := by
  have hsame {longer : TokenPath} (hkey : path ++ [key] <+: longer)
      (hkey' : path ++ [key'] <+: longer) : False := by
    have heq := (List.prefix_of_prefix_length_le hkey hkey' (by simp)).eq_of_length (by simp)
    exact hne (List.singleton_inj.mp (List.append_cancel_left heq))
  exact ⟨fun hprefix => hsame (h.trans hprefix) h', fun hprefix => hsame h (h'.trans hprefix)⟩

mutual

theorem pairwise_sightsAt {path : TokenPath} : ∀ node : Datum,
    (∀ sight ∈ sightsAt path node, sight.HasDistinctKeys) →
      ((sightsAt path node).filter (·.isToken)).Pairwise Sight.Apart
  | .map fields, hdistinct => by
    cases htoken : isTokenNode (.map fields) with
    | true =>
      rw [sightsAt_of_token htoken]
      exact (List.pairwise_singleton _ _).sublist List.filter_sublist
    | false =>
      rw [sightsAt_of_group htoken] at hdistinct ⊢
      rw [List.filter_cons_of_neg (by simp [Sight.isToken, htoken])]
      exact pairwise_sightsIn fields (hdistinct _ List.mem_cons_self fields rfl)
        fun sight hsight => hdistinct sight (List.mem_cons_of_mem _ hsight)
  | .null, _ | .bool _, _ | .int _, _ | .float _, _ | .str _, _ | .day _, _ | .moment _, _
  | .list _, _ => by
    unfold sightsAt
    exact (List.pairwise_singleton _ _).sublist List.filter_sublist

theorem pairwise_sightsIn {path : TokenPath} : ∀ members : Pairs, (members.map (·.1)).Nodup →
    (∀ sight ∈ sightsIn path members, sight.HasDistinctKeys) →
      ((sightsIn path members).filter (·.isToken)).Pairwise Sight.Apart
  | [], _, _ => by
    unfold sightsIn
    exact .nil
  | (key, node) :: rest, hnodup, hdistinct => by
    rw [List.map_cons, List.nodup_cons] at hnodup
    unfold sightsIn at hdistinct ⊢
    split
    · exact .nil
    · rename_i key' _ _ heq
      cases heq
      split
      · rename_i hkey
        simp only [if_pos hkey] at hdistinct
        exact pairwise_sightsIn rest hnodup.2 hdistinct
      · rename_i hkey
        simp only [if_neg hkey] at hdistinct
        rw [List.filter_append, List.pairwise_append]
        refine ⟨pairwise_sightsAt node fun sight hsight =>
            hdistinct sight (List.mem_append_left _ hsight),
          pairwise_sightsIn rest hnodup.2 fun sight hsight =>
            hdistinct sight (List.mem_append_right _ hsight), fun sight hsight other hother => ?_⟩
        -- What is met later stands below a later key, which is another one.
        obtain ⟨later, node', hmem, hlater⟩ :=
          exists_key_of_mem_sightsIn (List.mem_filter.mp hother).1
        refine Sight.apart_of_keys (fun heq => hnodup.1 ?_)
          (prefix_of_mem_sightsAt (List.mem_filter.mp hsight).1) hlater
        exact List.mem_map.mpr ⟨_, hmem, by rw [heq]⟩
    · rename_i heq
      cases heq
      exact pairwise_sightsIn rest hnodup.2 (by simpa using hdistinct)

end

/-- If no group repeats a key, the tokens of a walk are apart. -/
theorem pairwise_walk {root : Pairs} (h : ∀ sight ∈ walk root, sight.HasDistinctKeys) :
    ((walk root).filter (·.isToken)).Pairwise Sight.Apart := by
  unfold walk at h ⊢
  rw [List.filter_cons_of_neg (by simp [Sight.isToken])]
  exact pairwise_sightsIn root (h _ List.mem_cons_self root rfl)
    fun sight hsight => h sight (List.mem_cons_of_mem _ hsight)

end DesignTokens.Document
