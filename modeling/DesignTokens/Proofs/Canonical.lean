import DesignTokens.Proofs.Cascade
import DesignTokens.Proofs.Json.Printer
import DesignTokens.Proofs.Resolution.Chain
import DesignTokens.Proofs.Resolution.Fingerprint
import Mathlib.Data.List.Forall2
/-!
# The canonical text of a tree

The canonical text tells, position by position, the path, the declared type and the value of every
token of a tree.  Source layers and descriptions are left out, and no reference leads elsewhere for
them: trees with one canonical text resolve alike.
-/

set_option autoImplicit false

namespace DesignTokens

/-! ## Tokens -/

theorem Scalar.toJson_inj {first second : Scalar} (h : first.toJson = second.toJson) :
    first = second := by
  have hread := congrArg Scalar.ofJson? h
  rw [Scalar.ofJson?_toJson, Scalar.ofJson?_toJson] at hread
  exact Option.some.inj hread

theorem TokenType.name_inj {first second : TokenType} (h : first.name = second.name) :
    first = second := by
  have hread := congrArg TokenType.ofName? h
  rw [TokenType.ofName?_name, TokenType.ofName?_name] at hread
  exact Option.some.inj hread

theorem TokenPath.json_inj {first second : TokenPath}
    (h : Json.arr (first.map .str) = Json.arr (second.map .str)) : first = second := by
  have hstr : Function.Injective Json.str := fun _ _ heq => Json.str.inj heq
  exact List.map_injective_iff.mpr hstr (Json.arr.inj h)

theorem TokenValue.canonicalJson_inj {first second : TokenValue}
    (h : first.canonicalJson = second.canonicalJson) : first = second := by
  cases first with
  | literal value =>
    cases second with
    | literal value' =>
      simp only [TokenValue.canonicalJson, Json.obj.injEq, List.cons.injEq, Prod.mk.injEq,
        true_and] at h
      rw [Scalar.toJson_inj h.1]
    | reference target => simp [TokenValue.canonicalJson] at h
  | reference target =>
    cases second with
    | literal value => simp [TokenValue.canonicalJson] at h
    | reference target' =>
      simp only [TokenValue.canonicalJson, Json.obj.injEq, List.cons.injEq, Prod.mk.injEq,
        true_and, and_true] at h
      rw [TokenPath.json_inj h]

/-- Two tokens have the same path, declared type and value. -/
structure Token.Alike (first second : Token) : Prop where
  path : first.path = second.path
  type : first.type = second.type
  value : first.value = second.value

/-- The canonical form of a token tells its path, its declared type and its value. -/
theorem Token.alike_of_canonicalJson {first second : Token}
    (h : first.canonicalJson = second.canonicalJson) : first.Alike second := by
  simp only [Token.canonicalJson, Json.obj.injEq, List.cons.injEq, Prod.mk.injEq, true_and,
    and_true] at h
  obtain ⟨hpath, htype, hvalue⟩ := h
  refine ⟨TokenPath.json_inj hpath, ?_, TokenValue.canonicalJson_inj hvalue⟩
  cases hfirst : first.type with
  | none =>
    cases hsecond : second.type with
    | none => rfl
    | some t => simp [hfirst, hsecond] at htype
  | some t =>
    cases hsecond : second.type with
    | none => simp [hfirst, hsecond] at htype
    | some t' =>
      simp only [hfirst, hsecond, Json.str.injEq] at htype
      rw [TokenType.name_inj htype]

/-- The canonical form of a token tells no more. -/
theorem Token.Alike.canonicalJson_eq {first second : Token} (h : first.Alike second) :
    first.canonicalJson = second.canonicalJson := by
  unfold Token.canonicalJson
  rw [h.path, h.type, h.value]

/-! ## What the canonical text tells -/

/-- Trees with one canonical text have alike tokens at every position. -/
theorem TokenTree.forall₂_alike_of_text {first second : TokenTree}
    (h : first.text = second.text) :
    List.Forall₂ (fun entry entry' => Token.Alike entry.2 entry'.2) first second := by
  have hitems : first.map (fun entry => entry.2.canonicalJson) =
      second.map (fun entry => entry.2.canonicalJson) :=
    Json.arr.inj (Json.render_injective h)
  have hequal : List.Forall₂ Eq (first.map fun entry => entry.2.canonicalJson)
      (second.map fun entry => entry.2.canonicalJson) :=
    List.forall₂_eq_eq_eq ▸ hitems
  exact (List.forall₂_map_right_iff.mp (List.forall₂_map_left_iff.mp hequal)).imp
    fun _ _ heq => Token.alike_of_canonicalJson heq

/-- Two trees have the same number of tokens, and alike tokens at every position. -/
structure TokenTree.Alike (first second : TokenTree) : Prop where
  length : first.length = second.length
  token : ∀ (i : Nat) (h : i < first.length) (h' : i < second.length),
    first[i].2.Alike second[i].2

/-- The characters of a canonical text tell the tokens, position by position, and no more. -/
theorem TokenTree.text_eq_iff (first second : TokenTree) :
    first.text = second.text ↔ first.Alike second := by
  constructor
  · intro h
    obtain ⟨hlength, htoken⟩ := List.forall₂_iff_get.mp (forall₂_alike_of_text h)
    exact ⟨hlength, fun i hi hi' => by simpa using htoken i hi hi'⟩
  · intro h
    have hitems : first.map (fun entry => entry.2.canonicalJson) =
        second.map (fun entry => entry.2.canonicalJson) := by
      refine List.ext_getElem (by simp [h.length]) fun i hi hi' => ?_
      rw [List.length_map] at hi hi'
      rw [List.getElem_map, List.getElem_map]
      exact (h.token i hi hi').canonicalJson_eq
    unfold TokenTree.text TokenTree.canonicalJson
    rw [hitems]

/-- Alike trees have a canonical text together. -/
theorem TokenTree.Alike.isRenderable_eq {first second : TokenTree} (h : first.Alike second) :
    first.isRenderable = second.isRenderable := by
  have hjson : first.canonicalJson = second.canonicalJson :=
    Json.render_injective ((TokenTree.text_eq_iff first second).mpr h)
  unfold TokenTree.isRenderable
  rw [hjson]

/-- Where tokens stand under their own paths, alike trees have the same paths, in the same order. -/
theorem TokenTree.Alike.keys_eq {first second : TokenTree} (h : first.Alike second)
    (hfirst : first.Keyed) (hsecond : second.Keyed) :
    OrderedMap.keys first = OrderedMap.keys second := by
  unfold OrderedMap.keys
  refine List.ext_getElem (by simp [h.length]) fun i hi hi' => ?_
  rw [List.length_map] at hi hi'
  rw [List.getElem_map, List.getElem_map, ← hfirst _ (List.getElem_mem hi),
    ← hsecond _ (List.getElem_mem hi')]
  exact (h.token i hi hi').path

/-- Composed trees have one canonical text exactly if they have the same paths in the same order,
and under each of them the same declared type, or none, and the same value: a reference to the same
path, or a literal of the same kind.  So it is for the characters of the text, whatever the length
of the integers among them, and for the text that a tree has unless one of them is too long. -/
theorem Cascade.canonical_compose_eq_iff (layers layers' : List Layer) (mode mode' : String) :
    let same := OrderedMap.keys (compose layers mode) = OrderedMap.keys (compose layers' mode') ∧
      (compose layers mode).Alike (compose layers' mode')
    ((compose layers mode).text = (compose layers' mode').text ↔ same) ∧
      ∀ text, (compose layers mode).canonical = .ok text →
        ((compose layers' mode').canonical = .ok text ↔ same) := by
  intro same
  have htext : (compose layers mode).text = (compose layers' mode').text ↔ same := by
    rw [TokenTree.text_eq_iff]
    exact ⟨fun h => ⟨h.keys_eq (keyed_compose layers mode) (keyed_compose layers' mode'), h⟩,
      fun h => h.2⟩
  refine ⟨htext, fun text hcanonical => ?_⟩
  obtain ⟨hrenderable, rfl⟩ := TokenTree.canonical_eq_ok_iff.mp hcanonical
  rw [TokenTree.canonical_eq_ok_iff, ← htext]
  constructor
  · intro h
    exact h.2.symm
  · intro h
    exact ⟨(htext.mp h).2.isRenderable_eq ▸ hrenderable, h.symm⟩

-- Literals that print or compare alike, each as the only token of a tree.
example : (([.bool true, .int 1, .float (.ofInt 1), .str "1", .int 0, .float (.ofInt 0),
    .float (Binary64.ofInt 0).negate] : List Scalar).map fun value =>
      (Cascade.compose [⟨"base", none, "tokens", true, "inline",
        [⟨["Gap"], none, .literal value, "base", none⟩]⟩] "light").text).Nodup := by
  decide +kernel

/-- Where two trees are alike at every position, a path has alike tokens in both or in neither. -/
theorem TokenTree.get?_alike {first second : TokenTree} (hfirst : first.Keyed)
    (hsecond : second.Keyed)
    (h : List.Forall₂ (fun entry entry' => Token.Alike entry.2 entry'.2) first second)
    {path : TokenPath} {token : Token} (hget : OrderedMap.get? first path = some token) :
    ∃ token', OrderedMap.get? second path = some token' ∧ token.Alike token' := by
  induction h with
  | nil => cases hget
  | cons halike hrest ih =>
    rename_i entry entry' rest rest'
    have hkey : entry.1 = entry'.1 := by
      rw [← hfirst entry List.mem_cons_self, ← hsecond entry' List.mem_cons_self]
      exact halike.path
    rw [OrderedMap.get?_cons] at hget ⊢
    by_cases hpath : entry.1 = path
    · rw [if_pos hpath, Option.some.injEq] at hget
      rw [if_pos (hkey ▸ hpath)]
      exact ⟨entry'.2, rfl, hget ▸ halike⟩
    · rw [if_neg hpath] at hget
      rw [if_neg (hkey ▸ hpath)]
      exact ih (fun e hmem => hfirst e (List.mem_cons_of_mem _ hmem))
        (fun e hmem => hsecond e (List.mem_cons_of_mem _ hmem)) hget

/-- References lead to the same in trees with one canonical text. -/
theorem Resolution.Leads.of_text {first second : TokenTree} (hfirst : first.Keyed)
    (hsecond : second.Keyed) (h : first.text = second.text) {path : TokenPath}
    {terminal : Terminal} (hleads : Leads first path terminal) : Leads second path terminal := by
  have hrel := TokenTree.forall₂_alike_of_text h
  induction hleads with
  | literal hget hvalue =>
    obtain ⟨token', hget', halike⟩ := TokenTree.get?_alike hfirst hsecond hrel hget
    rw [halike.type]
    exact .literal hget' (halike.value ▸ hvalue)
  | reference hget hvalue _ ih =>
    obtain ⟨token', hget', halike⟩ := TokenTree.get?_alike hfirst hsecond hrel hget
    exact .reference hget' (halike.value ▸ hvalue) ih

end DesignTokens
