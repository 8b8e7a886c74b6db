import DesignTokens.Identifier
import DesignTokens.Proofs.Identifier.Words
import DesignTokens.Proofs.OrderedMap
import Mathlib.Data.List.Nodup
import Mathlib.Data.Set.Function
/-!
# Identifiers and the claims to them

Whatever the segments of a path hold, its identifier is two hyphens and a name.  Of a sequence of
paths, the first one with an identifier owns it, and every later path with it that is not its owner
collides with the owner.  Without a collision every path has its own identifier and no other path
has it.
-/

set_option autoImplicit false

namespace DesignTokens

/-- The identifier of a path is two hyphens and at least one more character, each of them a letter,
a digit, an underscore or a hyphen. -/
theorem Identifier.exists_body_ofPath (path : TokenPath) : ∃ body : List Char, body ≠ [] ∧
    (∀ c ∈ body, isIdentifierChar c = true) ∧ (ofPath path).toList = '-' :: '-' :: body := by
  have hname := isName_hyphenated (nameWords_ne_nil path) fun _ => isWord_of_mem_nameWords
  exact ⟨_, hname.ne_nil, hname.chars, toList_ofPath path⟩

namespace Claims

variable {claims : Claims} {paths : List TokenPath} {path owner other : TokenPath}
  {identifier : String}

/-! ## One claim -/

/-- The first claim to an identifier makes its path the owner. -/
theorem add_of_free (h : OrderedMap.get? claims.owners (Identifier.ofPath path) = none) :
    claims.add path =
      { claims with owners := claims.owners ++ [(Identifier.ofPath path, path)] } := by
  unfold add
  simp only [h]

/-- The owner may claim its identifier again. -/
theorem add_of_owned (h : OrderedMap.get? claims.owners (Identifier.ofPath path) = some path) :
    claims.add path = claims := by
  unfold add
  simp only [h, if_true]

/-- Any other path that claims it collides with the owner. -/
theorem add_of_taken (h : OrderedMap.get? claims.owners (Identifier.ofPath path) = some owner)
    (hne : owner ≠ path) : claims.add path =
      { claims with
        collisions := claims.collisions ++ [⟨Identifier.ofPath path, owner, path⟩] } := by
  unfold add
  simp only [h, if_neg hne]

/-- A claim to an owned identifier leaves the owners as they are. -/
theorem owners_add_of_some
    (h : OrderedMap.get? claims.owners (Identifier.ofPath path) = some owner) :
    (claims.add path).owners = claims.owners := by
  by_cases hne : owner = path
  · rw [add_of_owned (hne ▸ h)]
  · rw [add_of_taken h hne]

theorem ofPaths_concat (paths : List TokenPath) (path : TokenPath) :
    ofPaths (paths ++ [path]) = (ofPaths paths).add path := by
  rw [ofPaths, List.foldl_append]
  rfl

/-! ## Owners -/

/-- The first path of a sequence that has an identifier. -/
def firstWith? (paths : List TokenPath) (identifier : String) : Option TokenPath :=
  paths.find? fun path => Identifier.ofPath path = identifier

theorem firstWith?_eq_some (h : firstWith? paths identifier = some path) :
    path ∈ paths ∧ Identifier.ofPath path = identifier :=
  ⟨List.mem_of_find?_eq_some h, by simpa using List.find?_some h⟩

/-- Among the paths with the identifier of a member there is a first one. -/
theorem exists_firstWith? (h : path ∈ paths) :
    ∃ owner, firstWith? paths (Identifier.ofPath path) = some owner := by
  rw [← Option.isSome_iff_exists, firstWith?, List.find?_isSome]
  exact ⟨path, h, by simp⟩

theorem firstWith?_concat (paths : List TokenPath) (path : TokenPath) (identifier : String) :
    firstWith? (paths ++ [path]) identifier = (firstWith? paths identifier).or
      (if Identifier.ofPath path = identifier then some path else none) := by
  rw [firstWith?, List.find?_append, ← firstWith?]
  by_cases h : Identifier.ofPath path = identifier <;> simp [h]

/-- The owner of an identifier is the first path that has it. -/
theorem get?_owners_ofPaths (paths : List TokenPath) (identifier : String) :
    OrderedMap.get? (ofPaths paths).owners identifier = firstWith? paths identifier := by
  -- The induction is on the end of the sequence: a path is added to the owners before it.
  induction paths using List.reverseRecOn generalizing identifier with
  | nil => rfl
  | append_singleton paths path ih =>
    rw [ofPaths_concat, firstWith?_concat]
    cases hget : OrderedMap.get? (ofPaths paths).owners (Identifier.ofPath path) with
    | none => rw [add_of_free hget, OrderedMap.get?_append, ih, OrderedMap.get?_cons,
        OrderedMap.get?_nil]
    | some owner =>
      rw [owners_add_of_some hget, ih]
      by_cases h : Identifier.ofPath path = identifier
      · rw [← h, ← ih, hget, Option.some_or]
      · rw [if_neg h, Option.or_none]

/-- Every identifier stands once among the owners. -/
theorem nodup_keys_owners_ofPaths (paths : List TokenPath) :
    (OrderedMap.keys (ofPaths paths).owners).Nodup := by
  induction paths using List.reverseRecOn with
  | nil => exact .nil
  | append_singleton paths path ih =>
    rw [ofPaths_concat]
    cases hget : OrderedMap.get? (ofPaths paths).owners (Identifier.ofPath path) with
    | none =>
      have hnew := (OrderedMap.get?_eq_none_iff _ _).mp hget
      rw [add_of_free hget, ← OrderedMap.set_of_not_mem_keys hnew]
      exact OrderedMap.nodup_keys_set ih _ _
    | some owner =>
      rw [owners_add_of_some hget]
      exact ih

/-- An owner stands under its own identifier, and is the first path that has it. -/
theorem mem_owners_ofPaths_iff :
    (identifier, path) ∈ (ofPaths paths).owners ↔ firstWith? paths identifier = some path := by
  rw [← get?_owners_ofPaths]
  exact ⟨OrderedMap.get?_eq_some_of_mem (nodup_keys_owners_ofPaths paths),
    OrderedMap.mem_of_get?_eq_some⟩

/-! ## Collisions -/

/-- The collision of a member of a sequence with the owner of its identifier, if that is another
path. -/
def collisionAt? (paths : List TokenPath) (path : TokenPath) : Option Collision :=
  (firstWith? paths (Identifier.ofPath path)).bind fun owner =>
    if owner = path then none else some ⟨Identifier.ofPath path, owner, path⟩

/-- A later path does not matter for a member. -/
theorem collisionAt?_concat_of_mem (h : path ∈ paths) (later : TokenPath) :
    collisionAt? (paths ++ [later]) path = collisionAt? paths path := by
  obtain ⟨owner, howner⟩ := exists_firstWith? h
  rw [collisionAt?, firstWith?_concat, howner, Option.some_or, collisionAt?, howner]

/-- The last path collides with an owner among the paths before it. -/
theorem collisionAt?_concat_self (paths : List TokenPath) (path : TokenPath) :
    collisionAt? (paths ++ [path]) path = collisionAt? paths path := by
  unfold collisionAt?
  rw [firstWith?_concat, if_pos rfl]
  cases firstWith? paths (Identifier.ofPath path) with
  | none => simp
  | some owner => rfl

/-- The collisions are those of all members with the owners, in the order of the sequence. -/
theorem collisions_ofPaths (paths : List TokenPath) :
    (ofPaths paths).collisions = paths.filterMap (collisionAt? paths) := by
  induction paths using List.reverseRecOn with
  | nil => rfl
  | append_singleton paths path ih =>
    have hearlier : paths.filterMap (collisionAt? (paths ++ [path])) = (ofPaths paths).collisions := by
      rw [ih]
      exact List.filterMap_congr fun earlier hmem => collisionAt?_concat_of_mem hmem path
    rw [ofPaths_concat, List.filterMap_append, hearlier, List.filterMap_cons,
      List.filterMap_nil, collisionAt?_concat_self, collisionAt?, ← get?_owners_ofPaths]
    cases hget : OrderedMap.get? (ofPaths paths).owners (Identifier.ofPath path) with
    | none =>
      rw [add_of_free hget]
      simp
    | some owner =>
      by_cases howner : owner = path
      · rw [add_of_owned (howner ▸ hget)]
        simp [howner]
      · rw [add_of_taken hget howner]
        simp [howner]

/-- A path is the owner of its identifier exactly if it does not collide. -/
theorem collisionAt?_eq_none_iff (h : path ∈ paths) : collisionAt? paths path = none ↔
    firstWith? paths (Identifier.ofPath path) = some path := by
  obtain ⟨owner, howner⟩ := exists_firstWith? h
  rw [collisionAt?, howner, Option.bind_some, Option.some.injEq]
  by_cases heq : owner = path <;> simp [heq]

/-- There is no collision exactly if distinct paths have distinct identifiers. -/
theorem collisions_eq_nil_iff : (ofPaths paths).collisions = [] ↔
    Set.InjOn Identifier.ofPath {path | path ∈ paths} := by
  rw [collisions_ofPaths, List.filterMap_eq_nil_iff]
  constructor
  · intro hnone path hpath other hother heq
    have howner := (collisionAt?_eq_none_iff hpath).mp (hnone path hpath)
    rw [heq, (collisionAt?_eq_none_iff hother).mp (hnone other hother), Option.some.injEq] at howner
    exact howner.symm
  · intro hinj path hpath
    obtain ⟨owner, howner⟩ := exists_firstWith? hpath
    obtain ⟨hmem, hidentifier⟩ := firstWith?_eq_some howner
    rw [collisionAt?_eq_none_iff hpath, howner, hinj hmem hpath hidentifier]

/-- Without collisions distinct paths have distinct identifiers. -/
theorem eq_of_ofPath_eq (h : (ofPaths paths).collisions = []) (hpath : path ∈ paths)
    (hother : other ∈ paths) (heq : Identifier.ofPath path = Identifier.ofPath other) :
    path = other :=
  collisions_eq_nil_iff.mp h hpath hother heq

/-! ## The identifiers of paths -/

/-- No path owns two identifiers, so that the owners can be read from right to left. -/
theorem identifiers_ofPaths (paths : List TokenPath) : (ofPaths paths).identifiers =
    (ofPaths paths).owners.map fun entry => (entry.2, entry.1) := by
  have hnamed : (ofPaths paths).owners.map (·.1) =
      ((ofPaths paths).owners.map (·.2)).map Identifier.ofPath := by
    rw [List.map_map]
    exact List.map_congr_left fun entry hmem =>
      (firstWith?_eq_some (mem_owners_ofPaths_iff.mp hmem)).2.symm
  -- Owners have distinct identifiers, so they are distinct paths.
  have hkeys := nodup_keys_owners_ofPaths paths
  rw [OrderedMap.keys, hnamed] at hkeys
  refine OrderedMap.ofPairs_of_nodup ?_
  rw [List.map_map]
  exact hkeys.of_map _

theorem get?_identifiers_eq_some_iff :
    OrderedMap.get? (ofPaths paths).identifiers path = some identifier ↔
      firstWith? paths identifier = some path := by
  have hnodup : (OrderedMap.keys (ofPaths paths).identifiers).Nodup :=
    OrderedMap.nodup_keys_ofPairs _
  have hmem : (path, identifier) ∈ (ofPaths paths).identifiers ↔
      (identifier, path) ∈ (ofPaths paths).owners := by
    rw [identifiers_ofPaths, List.mem_map]
    constructor
    · rintro ⟨entry, hentry, heq⟩
      cases heq
      exact hentry
    · exact fun hentry => ⟨_, hentry, rfl⟩
  rw [← mem_owners_ofPaths_iff, ← hmem]
  exact ⟨OrderedMap.mem_of_get?_eq_some, OrderedMap.get?_eq_some_of_mem hnodup⟩

/-- Without collisions every path gets its own identifier. -/
theorem get?_identifiers_of_mem (h : (ofPaths paths).collisions = []) (hmem : path ∈ paths) :
    OrderedMap.get? (ofPaths paths).identifiers path = some (Identifier.ofPath path) := by
  rw [collisions_ofPaths, List.filterMap_eq_nil_iff] at h
  exact get?_identifiers_eq_some_iff.mpr ((collisionAt?_eq_none_iff hmem).mp (h path hmem))

/-- The check yields the identifiers of a sequence, or its first collision. -/
theorem check_eq (paths : List TokenPath) : check paths =
    match (ofPaths paths).collisions.head? with
    | some collision => .error collision
    | none => .ok (ofPaths paths).identifiers := by
  unfold check
  simp only
  cases (ofPaths paths).collisions <;> rfl

/-- The search for collisions is exact.  Every identifier is owned by the first path of the sequence
that has it; each member of the sequence that has the identifier of another owner collides with that
owner, and these are all collisions, in the order of the sequence.  So there is none if and only if
distinct paths have distinct identifiers; the check then maps just the paths of the sequence, each
to its own identifier and no two to the same.  Otherwise it stops at the first collision. -/
theorem ofPaths_exact (paths : List TokenPath) :
    (∀ identifier,
      OrderedMap.get? (ofPaths paths).owners identifier = firstWith? paths identifier) ∧
    (ofPaths paths).collisions = paths.filterMap (collisionAt? paths) ∧
    ((ofPaths paths).collisions = [] ↔ Set.InjOn Identifier.ofPath {path | path ∈ paths}) ∧
    (Set.InjOn Identifier.ofPath {path | path ∈ paths} → ∃ identifiers,
      check paths = .ok identifiers ∧
      (∀ path identifier, OrderedMap.get? identifiers path = some identifier ↔
        path ∈ paths ∧ Identifier.ofPath path = identifier) ∧
      ∀ path other identifier, OrderedMap.get? identifiers path = some identifier →
        OrderedMap.get? identifiers other = some identifier → path = other) ∧
    (¬ Set.InjOn Identifier.ofPath {path | path ∈ paths} → ∃ collision,
      (ofPaths paths).collisions.head? = some collision ∧ check paths = .error collision) := by
  refine ⟨get?_owners_ofPaths paths, collisions_ofPaths paths, collisions_eq_nil_iff,
    fun hinj => ?_, fun hnot => ?_⟩
  · have hnone := collisions_eq_nil_iff.mpr hinj
    have hcheck : check paths = .ok (ofPaths paths).identifiers := by
      rw [check_eq, hnone]
      rfl
    have hget (path : TokenPath) (identifier : String) :
        OrderedMap.get? (ofPaths paths).identifiers path = some identifier ↔
          path ∈ paths ∧ Identifier.ofPath path = identifier := by
      constructor
      · exact fun h => firstWith?_eq_some (get?_identifiers_eq_some_iff.mp h)
      · rintro ⟨hmem, rfl⟩
        exact get?_identifiers_of_mem hnone hmem
    refine ⟨_, hcheck, hget, fun path other identifier hpath hother => ?_⟩
    obtain ⟨hpath, hidentifier⟩ := (hget path identifier).mp hpath
    obtain ⟨hother, hidentifier'⟩ := (hget other identifier).mp hother
    exact hinj hpath hother (hidentifier.trans hidentifier'.symm)
  · obtain ⟨collision, later, hcollisions⟩ :=
      List.exists_cons_of_ne_nil fun hnone => hnot (collisions_eq_nil_iff.mp hnone)
    refine ⟨collision, by rw [hcollisions, List.head?_cons], ?_⟩
    rw [check_eq, hcollisions, List.head?_cons]

/-- Paths of which some are repeated, and two share an identifier. -/
def spacedPaths : List TokenPath :=
  [["sub title"], ["gap"], ["sub-title"], ["sub title"], ["gap"], ["sub-title"]]

theorem ofPaths_exact_spacedPaths :
    (ofPaths spacedPaths).collisions =
        [⟨"--sub-title", ["sub title"], ["sub-title"]⟩,
          ⟨"--sub-title", ["sub title"], ["sub-title"]⟩] ∧
      ¬ Set.InjOn Identifier.ofPath {path | path ∈ spacedPaths} ∧
      check spacedPaths = .error ⟨"--sub-title", ["sub title"], ["sub-title"]⟩ ∧
      Set.InjOn Identifier.ofPath {path | path ∈ [["gap"], ["sub title"], ["gap"]]} ∧
      ∃ identifiers, check [["gap"], ["sub title"], ["gap"]] = .ok identifiers ∧
        OrderedMap.get? identifiers ["sub title"] = some "--sub-title" := by
  have hcollisions : (ofPaths spacedPaths).collisions =
      [⟨"--sub-title", ["sub title"], ["sub-title"]⟩,
        ⟨"--sub-title", ["sub title"], ["sub-title"]⟩] := by decide
  obtain ⟨_, _, hnil, _, hstops⟩ := ofPaths_exact spacedPaths
  have hnot : ¬ Set.InjOn Identifier.ofPath {path | path ∈ spacedPaths} := by
    rw [← hnil, hcollisions]
    exact List.cons_ne_nil _ _
  obtain ⟨collision, hhead, hcheck⟩ := hstops hnot
  rw [hcollisions, List.head?_cons, Option.some.injEq] at hhead
  obtain ⟨_, _, hnil', hmaps, _⟩ := ofPaths_exact [["gap"], ["sub title"], ["gap"]]
  have hinj := hnil'.mp (by decide)
  obtain ⟨identifiers, hok, hget, _⟩ := hmaps hinj
  exact ⟨hcollisions, hnot, hhead ▸ hcheck, hinj, identifiers, hok,
    (hget _ _).mpr ⟨by decide, by decide⟩⟩

end Claims

end DesignTokens
