import DesignTokens.Proofs.Document.Flatten
/-!
# The scopes of types

A type that a group names holds for what stands in the group, up to the next group or token in it
that names one.  So the type of a token is named by its own node, or else by the nearest of the
groups around it that name any; what stands beside these groups has no say.  A token in no such
scope has the type of its literal, and a reference then has none.
-/

set_option autoImplicit false

namespace DesignTokens.Document

open Datum (Pairs)

/-! ## Places -/

/-- A node stands in a document at a path, inside of groups, the nearest first.  Nodes stand in the
root and in all groups that are no tokens. -/
inductive Stands (root : Pairs) : List Pairs → TokenPath → Datum → Prop where
  | root : Stands root [] [] (.map root)
  | member {groups : List Pairs} {path : TokenPath} {group : Pairs} {key : String} {node : Datum}
      (hgroup : Stands root groups path (.map group))
      (htoken : (Sight.mk path (.map group)).isToken = false) (hmem : (.str key, node) ∈ group)
      (hkey : isMetaKey key = false) : Stands root (group :: groups) (path ++ [key]) node

/-! ## Scopes -/

/-- A declaration names a type, by the name of the type or by one of the further names. -/
def Names (given : Datum) (type : TokenType) : Prop :=
  ∃ s, given = .str s ∧ (type.name = s ∨ (s, type) ∈ TokenType.aliases)

/-- The type that holds inside of groups, the nearest first: the one that the nearest names that
names any. -/
inductive InScope (groups : List Pairs) : Option TokenType → Prop where
  | named {inner outer : List Pairs} {group : Pairs} {given : Datum} {type : TokenType}
      (hgroups : groups = inner ++ group :: outer)
      (hinner : ∀ nearer ∈ inner, Pairs.get? nearer "$type" = none)
      (hgroup : Pairs.get? group "$type" = some given) (hname : Names given type) :
      InScope groups (some type)
  | unnamed (hgroups : ∀ group ∈ groups, Pairs.get? group "$type" = none) : InScope groups none

/-- The type that the kind of a value tells. -/
inductive KindType : TokenValue → Option TokenType → Prop where
  | bool (b : Bool) : KindType (.literal (.bool b)) (some .boolean)
  | int (n : Int) : KindType (.literal (.int n)) (some .number)
  | float (x : Binary64) : KindType (.literal (.float x)) (some .number)
  | str (s : String) : KindType (.literal (.str s)) (some .string)
  | reference (target : TokenPath) : KindType (.reference target) none

/-- The type of a token inside of groups, the nearest first. -/
inductive HasType (groups : List Pairs) (fields : Pairs) (value : TokenValue) :
    Option TokenType → Prop where
  | own {given : Datum} {type : TokenType} (hown : Pairs.get? fields "$type" = some given)
      (hname : Names given type) : HasType groups fields value (some type)
  | plain {given : Datum} {type : TokenType} (hown : Pairs.get? fields "$type" = none)
      (hplain : Pairs.get? fields "type" = some given) (hname : Names given type) :
      HasType groups fields value (some type)
  | scope {type : TokenType} (hown : Pairs.get? fields "$type" = none)
      (hplain : Pairs.get? fields "type" = none) (hscope : InScope groups (some type)) :
      HasType groups fields value (some type)
  | kind {type : Option TokenType} (hown : Pairs.get? fields "$type" = none)
      (hplain : Pairs.get? fields "type" = none) (hscope : InScope groups none)
      (hkind : KindType value type) : HasType groups fields value type

/-- A token is made of a node inside of groups, and has the type that is right there and no
other. -/
structure IsTyped (name : DocumentName) (groups : List Pairs) (path : TokenPath) (fields : Pairs)
    (tok : Token) : Prop where
  made : IsTokenOf name ⟨path, .map fields⟩ tok
  type : ∀ type, tok.type = type ↔ HasType groups fields tok.value type

variable {name : DocumentName} {root fields group members : Pairs} {groups : List Pairs}
  {path : TokenPath} {value : TokenValue} {given node : Datum} {tok : Token} {tokens : List Token}
  {inherited : Option TokenType}

/-! ## One type at most -/

theorem Names.unique {type other : TokenType} (h : Names given type) (h' : Names given other) :
    type = other := by
  obtain ⟨s, rfl, hname⟩ := h
  obtain ⟨s', heq, hname'⟩ := h'
  cases heq
  rw [← TokenType.ofDeclared?_eq_some_iff] at hname hname'
  rw [hname] at hname'
  exact Option.some.inj hname'

/-- The declaration that holds inside of groups, the nearest first. -/
def nearest? (groups : List Pairs) : Option Datum :=
  groups.findSome? fun group => Pairs.get? group "$type"

theorem nearest?_eq_some_iff : nearest? groups = some given ↔ ∃ inner group outer,
    groups = inner ++ group :: outer ∧ Pairs.get? group "$type" = some given ∧
      ∀ nearer ∈ inner, Pairs.get? nearer "$type" = none :=
  List.findSome?_eq_some_iff

theorem nearest?_eq_none_iff :
    nearest? groups = none ↔ ∀ group ∈ groups, Pairs.get? group "$type" = none :=
  List.findSome?_eq_none_iff

theorem inScope_some_iff {type : TokenType} :
    InScope groups (some type) ↔ ∃ given, nearest? groups = some given ∧ Names given type := by
  constructor
  · rintro (⟨hgroups, hinner, hgroup, hname⟩ | _)
    exact ⟨_, nearest?_eq_some_iff.mpr ⟨_, _, _, hgroups, hgroup, hinner⟩, hname⟩
  · rintro ⟨given, hnearest, hname⟩
    obtain ⟨inner, group, outer, hgroups, hgroup, hinner⟩ := nearest?_eq_some_iff.mp hnearest
    exact .named hgroups hinner hgroup hname

theorem inScope_none_iff : InScope groups none ↔ nearest? groups = none := by
  rw [nearest?_eq_none_iff]
  constructor
  · rintro (_ | hgroups)
    exact hgroups
  · exact .unnamed

theorem InScope.unique {type other : Option TokenType} (h : InScope groups type)
    (h' : InScope groups other) : type = other := by
  cases type <;> cases other <;>
    simp only [inScope_none_iff, inScope_some_iff] at h h'
  case none.none => rfl
  case none.some =>
    obtain ⟨given, hnearest, _⟩ := h'
    simp [h] at hnearest
  case some.none =>
    obtain ⟨given, hnearest, _⟩ := h
    simp [h'] at hnearest
  case some.some =>
    obtain ⟨given, hnearest, hname⟩ := h
    obtain ⟨given', hnearest', hname'⟩ := h'
    cases hnearest.symm.trans hnearest'
    rw [hname.unique hname']

theorem KindType.unique {type other : Option TokenType} (h : KindType value type)
    (h' : KindType value other) : type = other := by
  cases h <;> cases h' <;> rfl

theorem HasType.unique {type other : Option TokenType} (h : HasType groups fields value type)
    (h' : HasType groups fields value other) : type = other := by
  cases h with
  | own hown hname =>
    cases h' with
    | own hown' hname' =>
      cases hown.symm.trans hown'
      rw [hname.unique hname']
    | plain hown' | scope hown' | kind hown' => exact absurd (hown.symm.trans hown') nofun
  | plain hown hplain hname =>
    cases h' with
    | own hown' => exact absurd (hown.symm.trans hown') nofun
    | plain _ hplain' hname' =>
      cases hplain.symm.trans hplain'
      rw [hname.unique hname']
    | scope _ hplain' | kind _ hplain' => exact absurd (hplain.symm.trans hplain') nofun
  | scope hown hplain hscope =>
    cases h' with
    | own hown' => exact absurd (hown.symm.trans hown') nofun
    | plain _ hplain' => exact absurd (hplain.symm.trans hplain') nofun
    | scope _ _ hscope' => exact hscope.unique hscope'
    | kind _ _ hscope' => exact absurd (hscope.unique hscope') nofun
  | kind hown hplain hscope hkind =>
    cases h' with
    | own hown' => exact absurd (hown.symm.trans hown') nofun
    | plain _ hplain' => exact absurd (hplain.symm.trans hplain') nofun
    | scope _ _ hscope' => exact absurd (hscope.unique hscope') nofun
    | kind _ _ _ hkind' => exact hkind.unique hkind'

/-! ## One node -/

theorem kindType_inferredType (value : TokenValue) : KindType value (inferredType value) := by
  match value with
  | .reference target => exact .reference target
  | .literal (.bool b) => exact .bool b
  | .literal (.int n) => exact .int n
  | .literal (.float x) => exact .float x
  | .literal (.str s) => exact .str s

theorem names_of_declaredType {type : TokenType} (h : declaredType name path given = .ok type) :
    Names given type := by
  unfold declaredType at h
  split at h
  · rename_i s
    split at h
    · rename_i type' hdeclared
      cases h
      exact ⟨s, rfl, TokenType.ofDeclared?_eq_some_iff.mp hdeclared⟩
    · cases h
  · cases h

/-- What a group hands down holds inside of it, if what it is handed down holds around it. -/
theorem InScope.groupType {type : Option TokenType} (hscope : InScope groups inherited)
    (h : groupType name path inherited group = .ok type) : InScope (group :: groups) type := by
  unfold Document.groupType at h
  split at h
  · rename_i given hgroup
    cases hdeclared : declaredType name path given with
    | error failure =>
      rw [hdeclared] at h
      cases h
    | ok type' =>
      rw [hdeclared] at h
      cases h
      exact .named (List.nil_append _).symm nofun hgroup (names_of_declaredType hdeclared)
  · rename_i hgroup
    cases h
    cases hscope with
    | @named inner outer nearest _ _ hgroups hinner hnamed hname =>
      have hsplit : group :: groups = (group :: inner) ++ nearest :: outer :=
        congrArg (group :: ·) hgroups
      exact .named hsplit (List.forall_mem_cons.mpr ⟨hgroup, hinner⟩) hnamed hname
    | unnamed hgroups => exact .unnamed (List.forall_mem_cons.mpr ⟨hgroup, hgroups⟩)

theorem InScope.hasType {type : Option TokenType} (hscope : InScope groups inherited)
    (h : tokenType name path inherited fields value = .ok type) :
    HasType groups fields value type := by
  unfold tokenType at h
  rw [firstOf_pair] at h
  split at h
  · rename_i given hgiven
    cases hdeclared : declaredType name path given with
    | error failure =>
      rw [hdeclared] at h
      cases h
    | ok type' =>
      rw [hdeclared] at h
      cases h
      have hname := names_of_declaredType hdeclared
      rcases Option.or_eq_some_iff.mp hgiven with hown | ⟨hown, hplain⟩
      · exact .own hown hname
      · exact .plain hown hplain hname
  · rename_i hnone
    obtain ⟨hown, hplain⟩ := Option.or_eq_none_iff.mp hnone
    cases h
    cases inherited with
    | some type => exact .scope hown hplain hscope
    | none => exact .kind hown hplain hscope (kindType_inferredType value)

theorem exists_scalar_of_tokenValue {raw : Datum} (h : tokenValue name path raw = .ok value) :
    ∃ scalar, Scalar.ofDatum? raw = some scalar ∧ value = TokenValue.ofScalar scalar := by
  unfold tokenValue at h
  split at h
  · cases h
  · rename_i x hscalar
    split at h
    · cases h
      exact ⟨_, hscalar, rfl⟩
    · cases h
  · rename_i scalar _ hscalar
    refine ⟨scalar, hscalar, ?_⟩
    split at h
    · rename_i s hliteral
      split at h
      · cases h
      · cases h
        exact hliteral.symm
    · cases h
      rfl

/-- A token is made of its node, and has the type that holds there. -/
theorem InScope.isTyped (hscope : InScope groups inherited)
    (hnode : isTokenNode (.map fields) = true)
    (h : token name path inherited fields = .ok tok) : IsTyped name groups path fields tok := by
  obtain ⟨raw, hraw⟩ := exists_value_of_isTokenNode hnode
  obtain ⟨value, type, hvalue, htype, rfl⟩ := token_eq_ok h
  rw [firstOf_pair, hraw, Option.getD_some] at hvalue
  obtain ⟨scalar, hscalar, hmade⟩ := exists_scalar_of_tokenValue hvalue
  have hheld : HasType groups fields value type := hscope.hasType htype
  refine ⟨⟨rfl, rfl, raw, hraw, scalar, hscalar, hmade⟩, fun other => ?_⟩
  exact ⟨fun heq => heq ▸ hheld, hheld.unique⟩

/-! ## The whole document -/

/-- A token node that stands inside of groups makes a token. -/
structure Makes (name : DocumentName) (root : Pairs) (groups : List Pairs) (path : TokenPath)
    (fields : Pairs) (tok : Token) : Prop where
  stands : Stands root groups path (.map fields)
  token : (Sight.mk path (.map fields)).isToken = true
  named : ∀ key ∈ path, Text.allBlank key = false
  typed : IsTyped name groups path fields tok

/-- A node that stands inside of groups has been flattened to tokens: to the one that it makes, or,
if it is a group, to those of its members, to which it hands down the type that holds in it. -/
inductive Flattened (name : DocumentName) (root : Pairs) (groups : List Pairs) (path : TokenPath)
    (fields : Pairs) : List Token → Prop where
  | token {tok : Token} (h : Makes name root groups path fields tok) :
      Flattened name root groups path fields [tok]
  | group {inherited : Option TokenType} {tokens : List Token}
      (hstands : Stands root groups path (.map fields))
      (htoken : (Sight.mk path (.map fields)).isToken = false)
      (hnamed : ∀ key ∈ path, Text.allBlank key = false)
      (hscope : InScope (fields :: groups) inherited)
      (h : flattenMembers name inherited path fields = .ok tokens) :
      Flattened name root groups path fields tokens

/-- A member of a group is flattened under the type that holds in the group. -/
theorem flattened_of_flattenMember {key : String}
    (hstands : Stands root (group :: groups) (path ++ [key]) node)
    (hnamed : ∀ key ∈ path, Text.allBlank key = false) (hblank : Text.allBlank key = false)
    (hscope : InScope (group :: groups) inherited)
    (h : flattenMember name inherited (path ++ [key]) node = .ok tokens) :
    ∃ fields, node = .map fields ∧
      Flattened name root (group :: groups) (path ++ [key]) fields tokens := by
  have hnamed' : ∀ key' ∈ path ++ [key], Text.allBlank key' = false :=
    List.forall_mem_append.mpr ⟨hnamed, List.forall_mem_singleton.mpr hblank⟩
  obtain ⟨fields, rfl, ⟨hnode, tok, hmade, rfl⟩ | ⟨hnode, type, htype, hmembers⟩⟩ :=
    flattenMember_eq_ok h
  · have htoken : (Sight.mk (path ++ [key]) (.map fields)).isToken = true := by
      simp [Sight.isToken, hnode]
    exact ⟨fields, rfl, .token ⟨hstands, htoken, hnamed', hscope.isTyped hnode hmade⟩⟩
  · have htoken : (Sight.mk (path ++ [key]) (.map fields)).isToken = false := by
      simp [Sight.isToken, hnode]
    exact ⟨fields, rfl, .group hstands htoken hnamed' (hscope.groupType htype) hmembers⟩

/-- The root of a document is flattened, handed down no type. -/
theorem flattened_root {document : Datum} (h : flatten name document = .ok tokens) :
    ∃ root, document = .map root ∧ Flattened name root [] [] root tokens := by
  obtain ⟨root, type, rfl, htype, hmembers⟩ := flatten_eq_ok h
  have hscope : InScope [] none := .unnamed nofun
  exact ⟨root, rfl, .group .root rfl nofun (hscope.groupType htype) hmembers⟩

/-- What stands in a document is flattened, to some of its tokens. -/
theorem Stands.flattened (hstands : Stands root groups path node)
    (h : Flattened name root [] [] root tokens) :
    ∃ fields own, node = .map fields ∧ Flattened name root groups path fields own ∧
      own ⊆ tokens := by
  induction hstands with
  | root => exact ⟨root, tokens, rfl, h, List.Subset.refl _⟩
  | member hgroup htoken hmem hkey ih =>
    obtain ⟨fields, own, heq, hflat, hsub⟩ := ih
    cases heq
    cases hflat with
    | token hmakes => exact absurd (htoken.symm.trans hmakes.token) nofun
    | group _ _ hnamed hscope hmembers =>
      obtain ⟨hblank, own', hsub', hmember⟩ := (flattenMembers_eq_ok hmembers).1 _ _ hmem hkey
      obtain ⟨fields', rfl, hflat'⟩ := flattened_of_flattenMember
        (.member hgroup htoken hmem hkey) hnamed hblank hscope hmember
      exact ⟨fields', own', rfl, hflat', List.Subset.trans hsub' hsub⟩

/-- Each token is made of a node. -/
theorem Flattened.exists_makes {groups : List Pairs} {path : TokenPath} {fields : Pairs}
    {tokens : List Token} (h : Flattened name root groups path fields tokens) :
    ∀ tok ∈ tokens, ∃ groups path fields, Makes name root groups path fields tok := by
  intro tok htok
  cases h with
  | token hmakes => exact ⟨_, _, _, List.mem_singleton.mp htok ▸ hmakes⟩
  | group hstands htoken hnamed hscope hmembers =>
    obtain ⟨hall, hevery⟩ := flattenMembers_eq_ok hmembers
    obtain ⟨key, node, own, hmem, hkey, hmember, htok⟩ := hevery tok htok
    obtain ⟨inner, rfl, hflat⟩ := flattened_of_flattenMember
      (.member hstands htoken hmem hkey) hnamed (hall key node hmem hkey).1 hscope hmember
    have hsmaller := List.sizeOf_lt_of_mem hmem
    exact hflat.exists_makes tok htok
termination_by sizeOf fields
decreasing_by
  simp only [Prod.mk.sizeOf_spec, Datum.map.sizeOf_spec] at hsmaller
  omega

/-- The tokens of a flattened document are made of the token nodes that stand in it, and each has
the type that is right there: the one that its `$type` names, or else its `type`, or else the `$type`
of the nearest group around it that has one, or else the one of its literal.  A reference that is in
no scope has none. -/
theorem types_scoped (name : DocumentName) (document : Datum) (tokens : List Token)
    (h : flatten name document = .ok tokens) :
    ∃ root, document = .map root ∧
      (∀ tok ∈ tokens, ∃ groups path fields, Makes name root groups path fields tok) ∧
      ∀ groups path fields, Stands root groups path (.map fields) →
        (Sight.mk path (.map fields)).isToken = true →
          ∃ tok ∈ tokens, Makes name root groups path fields tok := by
  obtain ⟨root, rfl, hroot⟩ := flattened_root h
  refine ⟨root, rfl, hroot.exists_makes, fun groups path fields hstands htoken => ?_⟩
  obtain ⟨fields', own, heq, hflat, hsub⟩ := hstands.flattened hroot
  cases heq
  cases hflat with
  | token hmakes => exact ⟨_, hsub List.mem_cons_self, hmakes⟩
  | group _ htoken' => exact absurd (htoken.symm.trans htoken') nofun

/-- A document in which a group hides the type of the group around it, and a token the type of its
own group; what comes after the groups is in no scope. -/
def shadowedFields : Pairs :=
  [(.str "space", .map [
      (.str "$type", .str "spacing"),
      (.str "small", .map [(.str "value", .int 4)]),
      (.str "label", .map [(.str "value", .str "tight"), (.str "type", .str "color"),
        (.str "$type", .str "text")]),
      (.str "deep", .map [
        (.str "edge", .map [(.str "value", .str "\x7bspace.small\x7d")]),
        (.str "bold", .map [(.str "$type", .str "fontWeights"),
          (.str "heavy", .map [(.str "value", .int 700)])]),
        (.str "wide", .map [(.str "value", .int 12)])])]),
    (.str "rounded", .map [(.str "value", .bool true)]),
    (.str "alias", .map [(.str "value", .str "\x7brounded\x7d")])]

theorem types_scoped_shadowedFields : ∃ tokens,
    flatten ⟨"base", "base.json"⟩ (.map shadowedFields) = .ok tokens ∧
    tokens.map (fun tok => (tok.path, tok.type)) =
      [(["space", "small"], some .dimension), (["space", "label"], some .string),
        (["space", "deep", "edge"], some .dimension),
        (["space", "deep", "bold", "heavy"], some .fontWeight),
        (["space", "deep", "wide"], some .dimension), (["rounded"], some .boolean),
        (["alias"], none)] ∧
    ∀ tok ∈ tokens, ∃ groups path fields,
      Makes ⟨"base", "base.json"⟩ shadowedFields groups path fields tok := by
  refine ⟨_, rfl, rfl, ?_⟩
  obtain ⟨root, hroot, hmade, _⟩ :=
    types_scoped ⟨"base", "base.json"⟩ (.map shadowedFields) _ rfl
  cases hroot
  exact hmade

end DesignTokens.Document
