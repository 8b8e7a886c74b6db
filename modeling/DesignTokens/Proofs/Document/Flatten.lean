import DesignTokens.Proofs.Document
import DesignTokens.Proofs.Document.Walk
import DesignTokens.Proofs.Dotted
import DesignTokens.Proofs.Json.Digits
import DesignTokens.Proofs.Lists
import Mathlib.Data.List.Forall2
/-!
# Flattening is exact

A document is flattened if and only if all that a walk through it meets is sound: names that are not
blank, tokens and groups, values that a style sheet can carry, and known types.  The outcome is one
token for each token that the walk meets, in its order, with the keys that lead to it.  A document
with a flaw is refused for the first one that the walk meets, under the path of its node.  The
message shows what stands there as a type, so it is worded for all documents that a text can hold,
and not for data with an integer that has too many digits to be shown.
-/

set_option autoImplicit false

namespace DesignTokens

/-! ## Data as in documents -/

mutual

/-- Whether flattening meets only what JSON documents have: keys that are texts, and no values that
are days or moments. -/
def Datum.isDocumentLike : Datum → Bool
  | .map pairs => arePairsDocumentLike pairs
  | .day _ | .moment _ => false
  | _ => true

def Datum.arePairsDocumentLike : Datum.Pairs → Bool
  | [] => true
  | (.str _, value) :: rest => value.isDocumentLike && arePairsDocumentLike rest
  | _ :: _ => false

end

mutual

theorem Datum.isDocumentLike_ofJson : ∀ json : Json, (Datum.ofJson json).isDocumentLike = true
  | .obj fields => arePairsDocumentLike_ofJsonFields fields
  | .null | .bool _ | .int _ | .float _ | .str _ | .arr _ => rfl

theorem Datum.arePairsDocumentLike_ofJsonFields :
    ∀ fields : Json.Fields, Datum.arePairsDocumentLike (Datum.ofJsonFields fields) = true
  | [] => rfl
  | (_, value) :: rest => by
    unfold ofJsonFields arePairsDocumentLike
    rw [isDocumentLike_ofJson value, arePairsDocumentLike_ofJsonFields rest]
    rfl

end

/-- The values of such data are such data. -/
theorem Datum.isDocumentLike_of_get? {pairs : Datum.Pairs} {key : String} {value : Datum}
    (hpairs : Datum.arePairsDocumentLike pairs = true) (h : Pairs.get? pairs key = some value) :
    value.isDocumentLike = true := by
  induction pairs with
  | nil => cases h
  | cons pair rest ih =>
    unfold arePairsDocumentLike at hpairs
    split at hpairs
    · rename_i heq
      cases heq
    · rename_i heq
      cases heq
      rw [Bool.and_eq_true] at hpairs
      unfold Pairs.get? at h
      split at h
      · cases h
        exact hpairs.1
      · exact ih hpairs.2 h
    · cases hpairs

/-! ## Data that a message can show -/

theorem Datum.haveShowable_iff (pairs : Datum.Pairs) :
    haveShowable pairs = true ↔
      ∀ pair ∈ pairs, pair.1.isShowable = true ∧ pair.2.isShowable = true := by
  induction pairs with
  | nil => simp [haveShowable]
  | cons pair pairs ih => simp [haveShowable, ih]

theorem Datum.isShowable_of_get? {pairs : Datum.Pairs} {key : String} {value : Datum}
    (hpairs : haveShowable pairs = true) (h : Pairs.get? pairs key = some value) :
    value.isShowable = true := by
  rw [haveShowable_iff] at hpairs
  induction pairs with
  | nil => cases h
  | cons pair rest ih =>
    have hrest := ih fun other hother => hpairs other (List.mem_cons_of_mem _ hother)
    unfold Pairs.get? at h
    split at h
    · contradiction
    · rename_i heq
      cases heq
      split at h
      · cases h
        exact (hpairs _ List.mem_cons_self).2
      · exact hrest h
    · rename_i heq
      cases heq
      exact hrest h

mutual

/-- A message shows the JSON values that have a compact form. -/
theorem Datum.isShowable_ofJson : ∀ json : Json, (Datum.ofJson json).isShowable = json.isRenderable
  | .arr items => areShowable_ofJsonItems items
  | .obj fields => haveShowable_ofJsonFields fields
  | .int _ => rfl
  | .null | .bool _ | .float _ | .str _ => rfl

theorem Datum.areShowable_ofJsonItems :
    ∀ items : List Json, areShowable (ofJsonItems items) = Json.areRenderable items
  | [] => rfl
  | item :: items => by
    rw [ofJsonItems, areShowable, Json.areRenderable, isShowable_ofJson item,
      areShowable_ofJsonItems items]

theorem Datum.haveShowable_ofJsonFields :
    ∀ fields : Json.Fields, haveShowable (ofJsonFields fields) = Json.haveRenderable fields
  | [] => rfl
  | (_, value) :: fields => by
    rw [ofJsonFields, haveShowable, Json.haveRenderable, isShowable_ofJson value,
      haveShowable_ofJsonFields fields]
    rfl

end

/-! ## Names of types -/

/-- A text declares the type whose name it is, or of which it is a further name. -/
theorem TokenType.ofDeclared?_eq_some_iff {s : String} {type : TokenType} :
    TokenType.ofDeclared? s = some type ↔ type.name = s ∨ (s, type) ∈ TokenType.aliases := by
  have hname (type : TokenType) : TokenType.ofDeclared? type.name = some type := by
    cases type <;> decide
  have halias : ∀ pair ∈ TokenType.aliases, TokenType.ofDeclared? pair.1 = some pair.2 := by decide
  constructor
  · intro h
    unfold TokenType.ofDeclared? at h
    split at h
    · rename_i pair hfind
      cases h
      have hkey := List.find?_some hfind
      exact .inr (eq_of_beq hkey ▸ List.mem_of_find?_eq_some hfind)
    · exact .inl (by simpa using List.find?_some h)
  · rintro (rfl | hmem)
    · exact hname type
    · exact halias _ hmem

namespace Document

open Datum (Pairs)

/-! ## What is sound -/

/-- A known name of a type: its own, or one of the further names. -/
def IsTypeName (given : Datum) : Prop :=
  ∃ s, given = .str s ∧ ((∃ type : TokenType, type.name = s) ∨ ∃ type, (s, type) ∈ TokenType.aliases)

/-- A value that a token can have: a truth value, a finite number, a text that refers as a whole, or
a text without the characters that end a declaration or a rule. -/
inductive IsValue : Datum → Prop where
  | bool (b : Bool) : IsValue (.bool b)
  | int (n : Int) : IsValue (.int n)
  | float {x : Binary64} (h : x.isFinite = true) : IsValue (.float x)
  | reference {s : String} {target : TokenPath} (h : TokenValue.referenceTarget? s = some target) :
      IsValue (.str s)
  | text {s : String} (h : ∀ c ∈ s.toList, isDelimiter c = false) : IsValue (.str s)

/-- What is wrong with a value that no token can have. -/
inductive ValueFault : Datum → DocumentFault → Prop where
  | kind {raw : Datum} (h : Scalar.ofDatum? raw = none) : ValueFault raw (.valueKind raw.kindName)
  | notFinite {x : Binary64} (h : x.isFinite = false) : ValueFault (.float x) (.valueNotFinite x)
  | delimiter {s : String} {c : Char} (h : TokenValue.referenceTarget? s = none)
      (hmem : c ∈ s.toList) (hc : isDelimiter c = true) :
      ValueFault (.str s) (.delimiterInValue s)

namespace Sight

/-- What stands in a node as its value. -/
def value? (sight : Sight) : Option Datum :=
  match sight.node with
  | .map fields => (Pairs.get? fields "$value").or (Pairs.get? fields "value")
  | _ => none

/-- What a node declares as its type; a group does so only for what is below it. -/
def declared? (sight : Sight) : Option Datum :=
  match sight.node with
  | .map fields =>
    if sight.isToken then (Pairs.get? fields "$type").or (Pairs.get? fields "type")
    else Pairs.get? fields "$type"
  | _ => none

/-- A node has a name that is not blank, unless it is the root. -/
def IsNamed (sight : Sight) : Prop :=
  ∀ key ∈ sight.path.getLast?, Text.allBlank key = false

/-- A token has a value that tokens can have. -/
def HasValue (sight : Sight) : Prop :=
  sight.isToken = true → ∃ raw ∈ sight.value?, IsValue raw

/-- Nothing is wrong with a node itself. -/
structure IsSound (sight : Sight) : Prop where
  named : sight.IsNamed
  object : sight.node.isMap = true
  value : sight.HasValue
  type : ∀ given ∈ sight.declared?, IsTypeName given

/-- What is wrong with a node itself, in the order in which it is looked at. -/
inductive Offends (sight : Sight) : DocumentFault → Prop where
  | name {key : String} (hkey : key ∈ sight.path.getLast?) (h : Text.allBlank key = true) :
      Offends sight .emptyKey
  | object (hnamed : sight.IsNamed) (h : sight.node.isMap = false) :
      Offends sight (.notTokenOrGroup sight.node.kindName)
  | value {raw : Datum} {fault : DocumentFault} (hnamed : sight.IsNamed)
      (htoken : sight.isToken = true) (hraw : raw ∈ sight.value?) (h : ValueFault raw fault) :
      Offends sight fault
  | type {given : Datum} (hnamed : sight.IsNamed) (hvalue : sight.HasValue)
      (hgiven : given ∈ sight.declared?) (h : ¬ IsTypeName given) :
      Offends sight (.unknownType given)

end Sight

/-- A document is sound if all is that a walk through it meets. -/
def IsSound (root : Pairs) : Prop :=
  ∀ sight ∈ walk root, sight.IsSound

/-- The first flaw that a walk meets. -/
structure FirstFlaw (sights : List Sight) (sight : Sight) (fault : DocumentFault) : Prop where
  first : ∃ before after, sights = before ++ sight :: after ∧ ∀ earlier ∈ before, earlier.IsSound
  offends : sight.Offends fault

/-- The token that is made of a node: at its path, in the layer of the document, and with the value
of the node. -/
structure IsTokenOf (name : DocumentName) (sight : Sight) (tok : Token) : Prop where
  path : tok.path = sight.path
  layer : tok.layer = name.layer
  value : ∃ raw ∈ sight.value?, ∃ scalar, Scalar.ofDatum? raw = some scalar ∧
    tok.value = TokenValue.ofScalar scalar

variable {name : DocumentName} {path : TokenPath} {inherited : Option TokenType} {fields : Pairs}
  {sights later : List Sight} {sight : Sight} {raw given : Datum}

/-! ## Values and types -/

/-- A value is one that tokens can have, or has a fault, for which it is refused. -/
theorem tokenValue_cases (name : DocumentName) (path : TokenPath)
    (hraw : raw.isDocumentLike = true) :
    (IsValue raw ∧ ∃ scalar, Scalar.ofDatum? raw = some scalar ∧
      tokenValue name path raw = .ok (TokenValue.ofScalar scalar)) ∨
    ∃ fault, ValueFault raw fault ∧ tokenValue name path raw = .error (faultAt name fault path) := by
  cases raw with
  | null => exact .inr ⟨_, .kind rfl, rfl⟩
  | bool b => exact .inl ⟨.bool b, _, rfl, rfl⟩
  | int n => exact .inl ⟨.int n, _, rfl, rfl⟩
  | float x =>
    unfold tokenValue
    simp only [Scalar.ofDatum?]
    cases hfinite : x.isFinite with
    | true => exact .inl ⟨.float hfinite, _, rfl, rfl⟩
    | false => exact .inr ⟨_, .notFinite hfinite, rfl⟩
  | str s =>
    cases htarget : TokenValue.referenceTarget? s with
    | some target =>
      have hscalar : TokenValue.ofScalar (.str s) = .reference target := by
        simp only [TokenValue.ofScalar, htarget]
      refine .inl ⟨.reference htarget, .str s, rfl, ?_⟩
      simp only [tokenValue, Scalar.ofDatum?, hscalar]
    | none =>
      have hscalar : TokenValue.ofScalar (.str s) = .literal (.str s) := by
        simp only [TokenValue.ofScalar, htarget]
      cases hdelimiter : s.toList.any isDelimiter with
      | true =>
        obtain ⟨c, hmem, hc⟩ := List.any_eq_true.mp hdelimiter
        refine .inr ⟨_, .delimiter htarget hmem hc, ?_⟩
        simp only [tokenValue, Scalar.ofDatum?, hscalar, hdelimiter, if_true]
      | false =>
        refine .inl ⟨.text fun c hmem => ?_, .str s, rfl, ?_⟩
        · simpa using List.any_eq_false.mp hdelimiter c hmem
        · simp only [tokenValue, Scalar.ofDatum?, hscalar, hdelimiter, Bool.false_eq_true, if_false]
  | day _ => cases hraw
  | moment _ => cases hraw
  | list items => exact .inr ⟨_, .kind rfl, rfl⟩
  | map pairs => exact .inr ⟨_, .kind rfl, rfl⟩

theorem isTypeName_iff {s : String} :
    IsTypeName (.str s) ↔ ∃ type, TokenType.ofDeclared? s = some type := by
  simp [IsTypeName, TokenType.ofDeclared?_eq_some_iff, exists_or]

/-- A declared type is known, or refused. -/
theorem declaredType_cases (name : DocumentName) (path : TokenPath) (given : Datum) :
    (IsTypeName given ∧ ∃ type, declaredType name path given = .ok type) ∨
    (¬ IsTypeName given ∧
      declaredType name path given = .error (faultAt name (.unknownType given) path)) := by
  cases given with
  | str s =>
    unfold declaredType
    rw [isTypeName_iff]
    simp only
    cases TokenType.ofDeclared? s with
    | some type => exact .inl ⟨⟨type, rfl⟩, type, rfl⟩
    | none => exact .inr ⟨nofun, rfl⟩
  | null | bool _ | int _ | float _ | day _ | moment _ | list _ | map _ =>
    refine .inr ⟨?_, rfl⟩
    rintro ⟨s, heq, _⟩
    cases heq

theorem firstOf_pair (fields : Pairs) (first second : String) :
    firstOf fields [first, second] = (Pairs.get? fields first).or (Pairs.get? fields second) := by
  unfold firstOf
  rw [List.findSome?_cons, List.findSome?_cons, List.findSome?_nil]
  cases Pairs.get? fields first <;> cases Pairs.get? fields second <;> rfl

theorem declared?_of_token (h : (Sight.mk path (.map fields)).isToken = true) :
    (Sight.mk path (.map fields)).declared? = firstOf fields ["$type", "type"] := by
  rw [firstOf_pair]
  exact if_pos h

theorem declared?_of_group (h : (Sight.mk path (.map fields)).isToken = false) :
    (Sight.mk path (.map fields)).declared? = Pairs.get? fields "$type" :=
  if_neg (by simp [h])

/-- A token node has something as its value. -/
theorem exists_value_of_isTokenNode (h : isTokenNode (.map fields) = true) :
    ∃ raw, (Pairs.get? fields "$value").or (Pairs.get? fields "value") = some raw := by
  unfold isTokenNode Pairs.has at h
  cases hfirst : Pairs.get? fields "$value" with
  | some raw => exact ⟨raw, rfl⟩
  | none =>
    cases hsecond : Pairs.get? fields "value" with
    | some raw => exact ⟨raw, rfl⟩
    | none => simp [hfirst, hsecond] at h

/-- The type of a token is refused only if the token declares an unknown one. -/
theorem tokenType_cases (name : DocumentName) (path : TokenPath) (inherited : Option TokenType)
    (fields : Pairs) (value : TokenValue) :
    ((∀ given ∈ firstOf fields ["$type", "type"], IsTypeName given) ∧
      ∃ type, tokenType name path inherited fields value = .ok type) ∨
    ∃ given ∈ firstOf fields ["$type", "type"], ¬ IsTypeName given ∧
      tokenType name path inherited fields value =
        .error (faultAt name (.unknownType given) path) := by
  unfold tokenType
  cases firstOf fields ["$type", "type"] with
  | none => exact .inl ⟨nofun, _, rfl⟩
  | some given =>
    simp only
    rcases declaredType_cases name path given with ⟨hknown, type, hok⟩ | ⟨hunknown, herror⟩
    · refine .inl ⟨fun given' hgiven => Option.some.inj hgiven ▸ hknown, some type, ?_⟩
      rw [hok]
      rfl
    · refine .inr ⟨given, rfl, hunknown, ?_⟩
      rw [herror]
      rfl

/-! ## One node -/

/-- A token node is made a token, or has a flaw for which it is refused. -/
theorem token_cases (hlike : Datum.arePairsDocumentLike fields = true)
    (htoken : (Sight.mk path (.map fields)).isToken = true)
    (hnamed : (Sight.mk path (.map fields)).IsNamed) :
    ((Sight.mk path (.map fields)).IsSound ∧ ∃ tok, token name path inherited fields = .ok tok ∧
      IsTokenOf name ⟨path, .map fields⟩ tok) ∨
    ∃ fault, (Sight.mk path (.map fields)).Offends fault ∧
      token name path inherited fields = .error (faultAt name fault path) := by
  have hnode : isTokenNode (.map fields) = true := (Bool.and_eq_true _ _ ▸ htoken).2
  obtain ⟨raw, hraw⟩ := exists_value_of_isTokenNode hnode
  have hrawLike : raw.isDocumentLike = true := by
    rcases Option.or_eq_some_iff.mp hraw with hfirst | ⟨_, hsecond⟩
    · exact Datum.isDocumentLike_of_get? hlike hfirst
    · exact Datum.isDocumentLike_of_get? hlike hsecond
  have hvalue : raw ∈ (Sight.mk path (.map fields)).value? := hraw
  have hstart : token name path inherited fields = (do
      let value ← tokenValue name path raw
      let type ← tokenType name path inherited fields value
      return ⟨path, type, value, name.layer, description fields⟩) := by
    rw [token, firstOf_pair, hraw, Option.getD_some]
  -- The value is looked at first, so a type is at fault only if the value is not.
  rcases tokenValue_cases name path hrawLike with
    ⟨hsound, scalar, hscalar, hok⟩ | ⟨fault, hfault, hrefused⟩
  · have hhas : (Sight.mk path (.map fields)).HasValue := fun _ => ⟨raw, hvalue, hsound⟩
    have hnext : token name path inherited fields = (do
        let type ← tokenType name path inherited fields (TokenValue.ofScalar scalar)
        return ⟨path, type, TokenValue.ofScalar scalar, name.layer, description fields⟩) := by
      rw [hstart, hok]
      rfl
    rcases tokenType_cases name path inherited fields (TokenValue.ofScalar scalar) with
      ⟨hknown, type, htype⟩ | ⟨given, hgiven, hunknown, hrefused⟩
    · refine .inl ⟨⟨hnamed, rfl, hhas, ?_⟩, ?_⟩
      · rwa [declared?_of_token htoken]
      · rw [hnext, htype]
        exact ⟨_, rfl, rfl, rfl, raw, hvalue, scalar, hscalar, rfl⟩
    · refine .inr ⟨_, .type hnamed hhas ?_ hunknown, ?_⟩
      · rwa [declared?_of_token htoken]
      · rw [hnext, hrefused]
        rfl
  · refine .inr ⟨fault, .value hnamed htoken hvalue hfault, ?_⟩
    rw [hstart, hrefused]
    rfl

/-- A group is entered, or has a flaw for which it is refused. -/
theorem group_cases (name : DocumentName) (inherited : Option TokenType)
    (hgroup : (Sight.mk path (.map fields)).isToken = false)
    (hnamed : (Sight.mk path (.map fields)).IsNamed) :
    ((Sight.mk path (.map fields)).IsSound ∧
      ∃ type, groupType name path inherited fields = .ok type) ∨
    ∃ fault, (Sight.mk path (.map fields)).Offends fault ∧
      groupType name path inherited fields = .error (faultAt name fault path) := by
  have hhas : (Sight.mk path (.map fields)).HasValue := fun htoken => by simp [hgroup] at htoken
  have hdeclared := declared?_of_group hgroup
  unfold groupType
  cases hget : Pairs.get? fields "$type" with
  | none =>
    refine .inl ⟨⟨hnamed, rfl, hhas, fun given hgiven => ?_⟩, _, rfl⟩
    rw [hdeclared, hget] at hgiven
    cases hgiven
  | some given =>
    rw [hget] at hdeclared
    simp only
    rcases declaredType_cases name path given with ⟨hknown, type, hok⟩ | ⟨hunknown, hrefused⟩
    · refine .inl ⟨⟨hnamed, rfl, hhas, fun given' hgiven => ?_⟩, some type, by rw [hok]; rfl⟩
      rw [hdeclared] at hgiven
      exact Option.some.inj hgiven ▸ hknown
    · exact .inr ⟨_, .type hnamed hhas hdeclared hunknown, by rw [hrefused]; rfl⟩

/-! ## A whole walk -/

/-- An outcome tells of what a walk has met: that all is sound and these are the tokens, or that
this is the first flaw. -/
def Tells (name : DocumentName) (sights : List Sight) : Except Failure (List Token) → Prop
  | .ok tokens => (∀ sight ∈ sights, sight.IsSound) ∧
      List.Forall₂ (IsTokenOf name) (sights.filter (·.isToken)) tokens
  | .error failure => ∃ sight fault, FirstFlaw sights sight fault ∧
      failure = faultAt name fault sight.path

theorem Tells.error_append {failure : Failure} (h : Tells name sights (.error failure))
    (later : List Sight) : Tells name (sights ++ later) (.error failure) := by
  obtain ⟨sight, fault, ⟨⟨before, after, rfl, hbefore⟩, hoffends⟩, hfailure⟩ := h
  exact ⟨sight, fault, ⟨⟨before, after ++ later, by simp, hbefore⟩, hoffends⟩, hfailure⟩

theorem Tells.ok_append {first : List Token} (h : Tells name sights (.ok first))
    {result : Except Failure (List Token)} (hlater : Tells name later result) :
    Tells name (sights ++ later) (result.map (first ++ ·)) := by
  obtain ⟨hsound, htokens⟩ := h
  cases result with
  | ok others =>
    obtain ⟨hsound', htokens'⟩ := hlater
    refine ⟨fun sight hsight => ?_, ?_⟩
    · exact (List.mem_append.mp hsight).elim (hsound sight) (hsound' sight)
    · rw [List.filter_append]
      exact List.rel_append htokens htokens'
  | error failure =>
    obtain ⟨sight, fault, ⟨⟨before, after, rfl, hbefore⟩, hoffends⟩, hfailure⟩ := hlater
    refine ⟨sight, fault, ⟨⟨sights ++ before, after, by simp, fun earlier hearlier => ?_⟩, hoffends⟩,
      hfailure⟩
    exact (List.mem_append.mp hearlier).elim (hsound earlier) (hbefore earlier)

/-- A flaw of what is met first is the first flaw. -/
theorem Tells.of_offends {fault : DocumentFault} (h : sight.Offends fault) (later : List Sight) :
    Tells name (sight :: later) (.error (faultAt name fault sight.path)) :=
  ⟨sight, fault, ⟨⟨[], later, rfl, nofun⟩, h⟩, rfl⟩

/-- A sound node that is no token leaves the outcome to what comes after it. -/
theorem Tells.cons_of_sound (hsound : sight.IsSound) (htoken : sight.isToken = false)
    {result : Except Failure (List Token)} (hlater : Tells name later result) :
    Tells name (sight :: later) result := by
  have hfirst : Tells name [sight] (.ok []) := by
    refine ⟨fun sight' hsight' => List.mem_singleton.mp hsight' ▸ hsound, ?_⟩
    rw [List.filter_cons_of_neg (by simp [htoken])]
    exact .nil
  have htells := hfirst.ok_append hlater
  cases result <;> exact htells

mutual

/-- Flattening a member tells of the walk from there. -/
theorem tells_flattenMember {inherited : Option TokenType} {path : TokenPath} (hpath : path ≠ []) :
    ∀ node : Datum, node.isDocumentLike = true → (Sight.mk path node).IsNamed →
      Tells name (sightsAt path node) (flattenMember name inherited path node)
  | .map fields, hlike, hnamed => by
    unfold flattenMember
    cases hnode : isTokenNode (.map fields) with
    | true =>
      have htoken : (Sight.mk path (.map fields)).isToken = true := by
        simp [Sight.isToken, hnode, hpath]
      rw [sightsAt_of_token hnode, if_pos rfl]
      rcases token_cases hlike htoken hnamed with ⟨hsound, tok, hok, htok⟩ | ⟨fault, hfault, hrefused⟩
      · rw [hok]
        refine ⟨fun sight hsight => List.mem_singleton.mp hsight ▸ hsound, ?_⟩
        rw [List.filter_cons_of_pos htoken]
        exact .cons htok .nil
      · rw [hrefused]
        exact Tells.of_offends hfault []
    | false =>
      have hgroup : (Sight.mk path (.map fields)).isToken = false := by simp [Sight.isToken, hnode]
      rw [sightsAt_of_group hnode, if_neg Bool.false_ne_true]
      rcases group_cases name inherited hgroup hnamed with
        ⟨hsound, type, hok⟩ | ⟨fault, hfault, hrefused⟩
      · rw [hok]
        exact Tells.cons_of_sound hsound hgroup (tells_flattenMembers fields hlike)
      · rw [hrefused]
        exact Tells.of_offends hfault _
  | .null, _, hnamed | .bool _, _, hnamed | .int _, _, hnamed | .float _, _, hnamed
  | .str _, _, hnamed | .list _, _, hnamed => by
    unfold flattenMember sightsAt
    exact Tells.of_offends (.object hnamed rfl) []

/-- Flattening the members of a group tells of the walk through them. -/
theorem tells_flattenMembers {inherited : Option TokenType} {path : TokenPath} :
    ∀ members : Pairs, Datum.arePairsDocumentLike members = true →
      Tells name (sightsIn path members) (flattenMembers name inherited path members)
  | [], _ => by
    unfold flattenMembers sightsIn
    exact ⟨nofun, .nil⟩
  | (key, node) :: rest, hlike => by
    unfold Datum.arePairsDocumentLike at hlike
    split at hlike
    · contradiction
    · rename_i key _ _ heq
      cases heq
      rw [Bool.and_eq_true] at hlike
      have hlater : Tells name (sightsIn path rest) (flattenMembers name inherited path rest) :=
        tells_flattenMembers rest hlike.2
      cases hkey : isMetaKey key with
      | true => rwa [sightsIn_of_meta hkey, flattenMembers, if_pos hkey]
      | false =>
        rw [sightsIn_of_member hkey, flattenMembers, if_neg (by simp [hkey])]
        have hlast : (Sight.mk (path ++ [key]) node).path.getLast? = some key :=
          List.getLast?_concat
        split
        · rename_i hblank
          -- A walk meets the node with the blank key before anything below, whatever it is.
          obtain ⟨below, hbelow⟩ := exists_sightsAt_eq_cons (path ++ [key]) node
          rw [hbelow]
          exact (Tells.of_offends (.name hlast hblank) below).error_append _
        · rename_i hblank
          rw [Bool.not_eq_true] at hblank
          have hnamed : (Sight.mk (path ++ [key]) node).IsNamed := fun key' hkey' => by
            rw [hlast] at hkey'
            exact Option.some.inj hkey' ▸ hblank
          have hfirst : Tells name (sightsAt (path ++ [key]) node)
              (flattenMember name inherited (path ++ [key]) node) :=
            tells_flattenMember (by simp) node hlike.1 hnamed
          cases hmember : flattenMember name inherited (path ++ [key]) node with
          | error failure =>
            rw [hmember] at hfirst
            exact hfirst.error_append _
          | ok first =>
            rw [hmember] at hfirst
            have htells := hfirst.ok_append hlater
            cases hrest : flattenMembers name inherited path rest <;> rw [hrest] at htells <;>
              exact htells
    · contradiction

end

/-- Flattening a document tells of the walk through it. -/
theorem tells_flatten {root : Pairs} (hlike : Datum.arePairsDocumentLike root = true) :
    Tells name (walk root) (flatten name (.map root)) := by
  have hgroup : (Sight.mk [] (.map root)).isToken = false := rfl
  have hnamed : (Sight.mk [] (.map root)).IsNamed := fun key hkey => by cases hkey
  unfold walk flatten
  simp only
  rcases group_cases name none hgroup hnamed with ⟨hsound, type, hok⟩ | ⟨fault, hfault, hrefused⟩
  · rw [hok]
    exact Tells.cons_of_sound hsound hgroup (tells_flattenMembers root hlike)
  · rw [hrefused]
    exact Tells.of_offends hfault _

/-! ## The whole document -/

theorem ValueFault.not_isValue {fault : DocumentFault} (h : ValueFault raw fault) :
    ¬ IsValue raw := by
  intro hvalue
  cases h with
  | kind hnone => cases hvalue <;> cases hnone
  | notFinite hfinite =>
    cases hvalue with
    | float hfinite' => simp [hfinite'] at hfinite
  | delimiter hnone hmem hc =>
    cases hvalue with
    | reference htarget => simp [htarget] at hnone
    | text hplain => simp [hplain _ hmem] at hc

theorem Sight.Offends.not_isSound {fault : DocumentFault} (h : sight.Offends fault) :
    ¬ sight.IsSound := by
  intro hsound
  cases h with
  | name hkey hblank => simp [hsound.named _ hkey] at hblank
  | object _ hnode => simp [hsound.object] at hnode
  | value _ htoken hraw hfault =>
    obtain ⟨raw', hraw', hvalue⟩ := hsound.value htoken
    rw [Option.mem_unique hraw hraw'] at hfault
    exact hfault.not_isValue hvalue
  | type _ _ hgiven hunknown => exact hunknown (hsound.type _ hgiven)

theorem FirstFlaw.not_isSound {root : Pairs} {fault : DocumentFault}
    (h : FirstFlaw (walk root) sight fault) : ¬ IsSound root := by
  intro hsound
  obtain ⟨before, after, hwalk, _⟩ := h.first
  refine h.offends.not_isSound (hsound sight ?_)
  rw [hwalk]
  exact List.mem_append_right _ List.mem_cons_self

/-- What keys lead to can be shown if the document can. -/
theorem Descends.isShowable {keys : TokenPath} {node : Datum} (h : Descends fields keys node)
    (hfields : Datum.haveShowable fields = true) : node.isShowable = true := by
  induction h with
  | member hmem _ => exact ((Datum.haveShowable_iff _).mp hfields _ hmem).2
  | through hmem _ _ _ ih => exact ih ((Datum.haveShowable_iff _).mp hfields _ hmem).2

theorem Sight.isShowable_of_declared? (hnode : sight.node.isShowable = true)
    (hgiven : given ∈ sight.declared?) : given.isShowable = true := by
  unfold declared? at hgiven
  split at hgiven
  · rename_i fields heq
    rw [heq] at hnode
    split at hgiven
    · rcases Option.or_eq_some_iff.mp hgiven with hfirst | ⟨_, hsecond⟩
      · exact Datum.isShowable_of_get? hnode hfirst
      · exact Datum.isShowable_of_get? hnode hsecond
    · exact Datum.isShowable_of_get? hnode hgiven
  · cases hgiven

/-- A flaw of a document that can be shown is reported. -/
theorem FirstFlaw.faultAt_eq {root : Pairs} {fault : DocumentFault}
    (h : FirstFlaw (walk root) sight fault) (hroot : Datum.haveShowable root = true)
    (name : DocumentName) :
    faultAt name fault sight.path = .error (.document name.identifier fault (.atPath sight.path)) := by
  obtain ⟨before, after, hwalk, _⟩ := h.first
  have hmem : sight ∈ walk root := by
    rw [hwalk]
    exact List.mem_append_right _ List.mem_cons_self
  have hnode : sight.node.isShowable = true := by
    rcases mem_walk_iff.mp hmem with ⟨_, hnode⟩ | hdescends
    · rw [hnode]
      exact hroot
    · exact hdescends.isShowable hroot
  have hshowable : fault.isShowable = true := by
    cases h.offends with
    | name _ _ => rfl
    | object _ _ => rfl
    | value _ _ _ hfault => cases hfault <;> rfl
    | type _ _ hgiven _ => exact Sight.isShowable_of_declared? hnode hgiven
  exact if_pos hshowable

/-- A document is flattened if and only if all that a walk through it meets is sound.  Then there is
one token for each token that the walk meets, in its order; these are the token nodes that keys lead
to through groups, and, as no mapping of a document repeats a key, none stands above another one or
at the same path.  Otherwise the document is refused for the first flaw that the walk meets, under
the dotted path of its node.  This refusal can be worded for every document that is read from a
text. -/
theorem flatten_exact (name : DocumentName) (fields : Json.Fields) :
    (IsSound (Datum.ofJsonFields fields) ↔
      ∃ tokens, flatten name (.ofJson (.obj fields)) = .ok tokens) ∧
    (∀ tokens, flatten name (.ofJson (.obj fields)) = .ok tokens →
      List.Forall₂ (IsTokenOf name)
        ((walk (Datum.ofJsonFields fields)).filter (·.isToken)) tokens ∧
      (∀ path, path ∈ tokens.map Token.path ↔
        ∃ node, Descends (Datum.ofJsonFields fields) path node ∧ isTokenNode node = true) ∧
      ((∀ sight ∈ walk (Datum.ofJsonFields fields), sight.HasDistinctKeys) →
        (tokens.map Token.path).Pairwise fun path other => ¬ path <+: other ∧ ¬ other <+: path)) ∧
    (¬ IsSound (Datum.ofJsonFields fields) →
      ∃ sight fault, FirstFlaw (walk (Datum.ofJsonFields fields)) sight fault ∧
        flatten name (.ofJson (.obj fields)) = .error (faultAt name fault sight.path) ∧
        ((Json.obj fields).isRenderable = true → faultAt name fault sight.path =
          .error (.document name.identifier fault (.atPath sight.path))) ∧
        (DocumentPlace.atPath sight.path).text? =
          some (if sight.path = [] ∨ sight.path = [""] then "<root>" else sight.path.dotted)) ∧
    ∀ policy text, Json.read policy text = .ok (.obj fields) →
      (Json.obj fields).isRenderable = true := by
  have htells : Tells name (walk (Datum.ofJsonFields fields))
      (flatten name (.ofJson (.obj fields))) :=
    tells_flatten (Datum.arePairsDocumentLike_ofJsonFields fields)
  have hplace (path : TokenPath) : (DocumentPlace.atPath path).text? =
      some (if path = [] ∨ path = [""] then "<root>" else path.dotted) := by
    simp only [DocumentPlace.text?, TokenPath.dotted_eq_empty_iff]
  have hread (policy : Json.KeyPolicy) (text : String)
      (h : Json.read policy text = .ok (.obj fields)) : (Json.obj fields).isRenderable = true :=
    Json.isRenderable_of_read h
  -- All that is claimed is told of the outcome, so nothing else of the function is needed.
  generalize flatten name (.ofJson (.obj fields)) = result at htells ⊢
  cases result with
  | ok tokens =>
    obtain ⟨hsound, htokens⟩ := htells
    refine ⟨⟨fun _ => ⟨tokens, rfl⟩, fun _ => hsound⟩, ?_, fun hflawed => absurd hsound hflawed,
      hread⟩
    rintro _ ⟨rfl⟩
    have hpaths : tokens.map Token.path = _ :=
      Lists.map_eq_of_forall₂ htokens fun _ _ htok => htok.path
    refine ⟨htokens, fun path => ?_, fun hdistinct => ?_⟩
    · rw [hpaths, List.mem_map]
      constructor
      · rintro ⟨⟨path, node⟩, hmem, rfl⟩
        exact ⟨node, mem_tokens_iff.mp hmem⟩
      · rintro ⟨node, hdescends⟩
        exact ⟨⟨path, node⟩, mem_tokens_iff.mpr hdescends, rfl⟩
    · rw [hpaths, List.pairwise_map]
      exact pairwise_walk hdistinct
  | error failure =>
    obtain ⟨sight, fault, hfirst, rfl⟩ := htells
    refine ⟨⟨fun hsound => absurd hsound hfirst.not_isSound, nofun⟩, nofun, fun _ => ?_, hread⟩
    refine ⟨sight, fault, hfirst, rfl, fun hrenderable => ?_, hplace sight.path⟩
    refine hfirst.faultAt_eq ?_ name
    rwa [Datum.haveShowable_ofJsonFields]

/-- A document with metadata, a group that is called `value`, and a token that holds another one. -/
def layeredFields : Json.Fields :=
  [("$type", .str "color"), ("$extensions", .obj [("old", .obj [("$value", .str "red")])]),
    ("ink", .obj [("value", .obj [("$value", .str "#111")]),
      ("accent", .obj [("value", .str "{ink.value}"), ("inner", .obj [("$value", .int 1)])])]),
    ("rounded", .obj [("value", .bool true), ("$type", .str "boolean")])]

/-- A document with a value that ends its declaration, before a blank key. -/
def spilledFields : Json.Fields :=
  [("ink", .obj [("value", .str "red; bold")]), (" ", .null)]

theorem flatten_exact_layeredFields :
    ((∀ sight ∈ walk (Datum.ofJsonFields layeredFields), sight.HasDistinctKeys) ∧
      IsSound (Datum.ofJsonFields layeredFields) ∧
      ∃ tokens, flatten ⟨"base", "base.json"⟩ (.ofJson (.obj layeredFields)) = .ok tokens ∧
        tokens.map Token.path = [["ink", "value"], ["ink", "accent"], ["rounded"]] ∧
        (tokens.map Token.path).Pairwise fun path other => ¬ path <+: other ∧ ¬ other <+: path) ∧
    ¬ IsSound (Datum.ofJsonFields spilledFields) ∧
      ∃ sight, FirstFlaw (walk (Datum.ofJsonFields spilledFields)) sight
        (.delimiterInValue "red; bold") ∧ sight.path = ["ink"] := by
  have hdistinct : ∀ sight ∈ walk (Datum.ofJsonFields layeredFields), sight.HasDistinctKeys := by
    simp [walk, sightsIn, sightsAt, layeredFields, Datum.ofJsonFields, Datum.ofJson,
      Sight.HasDistinctKeys, isMetaKey, isTokenNode, Datum.Pairs.has, Datum.Pairs.get?, Datum.isMap]
  have hflat : flatten ⟨"base", "base.json"⟩ (.ofJson (.obj layeredFields)) = .ok
      [⟨["ink", "value"], some .color, .literal (.str "#111"), "base", none⟩,
        ⟨["ink", "accent"], some .color, .reference ["ink", "value"], "base", none⟩,
        ⟨["rounded"], some .boolean, .literal (.bool true), "base", none⟩] := rfl
  have hspilled : flatten ⟨"base", "base.json"⟩ (.ofJson (.obj spilledFields)) = .error (.error
      (.document "base.json" (.delimiterInValue "red; bold") (.atPath ["ink"]))) := rfl
  obtain ⟨hsound, htokens, _⟩ := flatten_exact ⟨"base", "base.json"⟩ layeredFields
  obtain ⟨hsound', _, hflaw, _⟩ := flatten_exact ⟨"base", "base.json"⟩ spilledFields
  have hunsound : ¬ IsSound (Datum.ofJsonFields spilledFields) := by
    rw [hsound', hspilled]
    rintro ⟨tokens, htokens⟩
    cases htokens
  refine ⟨⟨hdistinct, hsound.mpr ⟨_, hflat⟩, _, hflat, rfl, (htokens _ hflat).2.2 hdistinct⟩,
    hunsound, ?_⟩
  obtain ⟨sight, fault, hfirst, hrefused, hworded, _⟩ := hflaw hunsound
  rw [hspilled, hworded rfl] at hrefused
  obtain ⟨_, rfl, hpath⟩ := BuildError.document.inj (Failure.error.inj (Except.error.inj hrefused))
  exact ⟨sight, hfirst, (DocumentPlace.atPath.inj hpath).symm⟩

end Document

end DesignTokens
