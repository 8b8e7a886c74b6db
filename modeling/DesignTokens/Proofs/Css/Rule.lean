import DesignTokens.Css.Rule
import DesignTokens.Proofs.Css.Value
import DesignTokens.Proofs.Identifier
/-!
# Reading a rule block back

In both layouts, a rule block of contained declarations can be read back by cutting: the body at its
semicolons, and every piece at its first colon.
-/

set_option autoImplicit false

namespace DesignTokens

namespace Css

/-- The name of a custom property: two hyphens and at least one more character, each of them a
letter, a digit, an underscore or a hyphen. -/
def IsPropertyName (name : String) : Prop :=
  ∃ body : List Char, body ≠ [] ∧ (∀ c ∈ body, isIdentifierChar c = true) ∧
    name.toList = '-' :: '-' :: body

/-- A declaration that nothing in it can end. -/
structure Declaration.Contained (d : Declaration) : Prop where
  name : IsPropertyName d.name
  value : Css.Contained d.value

/-- The declaration in a piece of a rule block: what stands before the first colon, and what stands
behind it. -/
def readDeclaration (piece : List Char) : Declaration :=
  let parts := Decimal.splitAtMark ':' piece
  ⟨Text.trim (String.ofList parts.1), Text.trim (String.ofList parts.2)⟩

/-- The declarations in the first rule block of a text, and the text behind it: what stands between
the first opening brace and the closing one is cut at the semicolons; what follows the last of these
is no declaration. -/
def readFront (cs : List Char) : List Declaration × List Char :=
  let inside := (Decimal.splitAtMark '\x7b' cs).2
  let (body, behind) := Decimal.splitAtMark '\x7d' inside
  ((Text.splitAtChar ';' body).dropLast.map readDeclaration, behind)

/-- The declarations in a rule block. -/
def readRule (text : String) : List Declaration :=
  (readFront text.toList).1

/-- The declarations in a rule block that begins with a selector, and the text behind the block. -/
def readBehind? (selector : String) (cs : List Char) : Option (List Declaration × List Char) :=
  (selector.toList.isPrefixOf? cs).map readFront

/-! ## The two layouts -/

/-- What stands before a declaration. -/
def lead (minify : Bool) : List Char :=
  if minify then [] else ['\n', ' ', ' ']

/-- What stands between the colon and the value. -/
def gap (minify : Bool) : List Char :=
  if minify then [] else [' ']

/-- What stands behind the last declaration. -/
def trail (minify : Bool) : List Char :=
  if minify then [] else ['\n']

/-- A declaration in a layout, without its semicolon. -/
def piece (minify : Bool) (d : Declaration) : List Char :=
  lead minify ++ d.name.toList ++ ':' :: gap minify ++ d.value.toList

/-- The body of a rule block: its pieces, each with a semicolon. -/
def body (minify : Bool) (declarations : List Declaration) : List Char :=
  declarations.flatMap (fun d => piece minify d ++ [';']) ++ trail minify

theorem toList_compact (d : Declaration) : d.compact.toList = piece true d ++ [';'] := by
  simp [Declaration.compact, piece, lead, gap]

theorem toList_line (d : Declaration) : '\n' :: d.line.toList = piece false d ++ [';'] := by
  simp [Declaration.line, piece, lead, gap]

/-- A rule block is its selector, and its body in braces. -/
theorem toList_rule (minify : Bool) (selector : String) (declarations : List Declaration) :
    (rule minify selector declarations).toList =
      selector.toList ++ gap minify ++ '\x7b' :: (body minify declarations ++ ['\x7d']) := by
  unfold rule body
  cases minify with
  | true =>
    have hbody : ("".intercalate (declarations.map Declaration.compact)).toList =
        declarations.flatMap fun d => piece true d ++ [';'] := by
      rw [Text.toList_joined, List.flatMap_map]
      simp only [toList_compact]
    simp [hbody, gap, trail]
  | false =>
    have hlines : declarations.flatMap (fun d => '\n' :: d.line.toList) =
        declarations.flatMap fun d => piece false d ++ [';'] := by
      simp only [toList_line]
    change ("\n".intercalate ((selector ++ " \x7b") ::
      (declarations.map Declaration.line ++ ["\x7d"]))).toList = _
    rw [String.toList_intercalate, List.map_cons, Lists.intercalate_cons, List.map_append,
      List.flatMap_append, List.map_map, List.flatMap_map]
    change (selector ++ " \x7b").toList ++
      (declarations.flatMap (fun d => '\n' :: d.line.toList) ++ _) = _
    rw [hlines]
    simp [gap, trail]

/-! ## Reading back -/

variable {d : Declaration} {minify : Bool}

/-- The parts of a name, none of which ends anything or separates words. -/
theorem IsPropertyName.char {name : String} (h : IsPropertyName name) {c : Char}
    (hc : c ∈ name.toList) : isIdentifierChar c = true := by
  obtain ⟨body, _, hbody, hname⟩ := h
  rw [hname] at hc
  rcases List.mem_cons.mp hc with rfl | hc
  · decide
  · rcases List.mem_cons.mp hc with rfl | hc
    · decide
    · exact hbody c hc

theorem plain_of_isIdentifierChar {c : Char} (h : isIdentifierChar c = true) :
    Document.isDelimiter c = false ∧ Text.isBlank c = false ∧ c ≠ ':' := by
  unfold isIdentifierChar at h
  simp only [Bool.or_eq_true, beq_iff_eq] at h
  rcases h with (halphanum | rfl) | rfl
  · refine ⟨isDelimiter_of_isAlphanum halphanum, Text.isBlank_of_isAlphanum halphanum, ?_⟩
    rintro rfl
    revert halphanum
    decide
  · decide
  · decide

/-- What the layouts put around the parts of a declaration is blank. -/
theorem isBlank_of_mem_lead (minify : Bool) {c : Char} (hc : c ∈ lead minify) :
    Text.isBlank c = true := by
  have hall : (lead minify).all Text.isBlank = true := by
    cases minify <;> decide
  exact List.all_eq_true.mp hall c hc

theorem isBlank_of_mem_gap (minify : Bool) {c : Char} (hc : c ∈ gap minify) :
    Text.isBlank c = true := by
  have hall : (gap minify).all Text.isBlank = true := by
    cases minify <;> decide
  exact List.all_eq_true.mp hall c hc

/-- No character of a piece ends the declaration or the rule. -/
theorem isDelimiter_of_mem_piece (h : d.Contained) {c : Char} (hc : c ∈ piece minify d) :
    Document.isDelimiter c = false := by
  unfold piece at hc
  simp only [List.append_assoc, List.cons_append, List.mem_append, List.mem_cons] at hc
  rcases hc with hc | hc | rfl | hc | hc
  · exact isDelimiter_of_isBlank (isBlank_of_mem_lead minify hc)
  · exact (plain_of_isIdentifierChar (h.name.char hc)).1
  · rfl
  · exact isDelimiter_of_isBlank (isBlank_of_mem_gap minify hc)
  · exact h.value.not_delimiter c hc

/-- The first colon of a piece stands between the name and the value, whatever comes behind. -/
theorem splitAtMark_piece (h : d.Contained) (minify : Bool) (rest : List Char) :
    Decimal.splitAtMark ':' (piece minify d ++ rest) =
      (lead minify ++ d.name.toList, gap minify ++ d.value.toList ++ rest) := by
  have hcolon : ':' ∉ lead minify ++ d.name.toList := by
    rw [List.mem_append, not_or]
    constructor
    · cases minify <;> decide
    · intro hname
      exact (plain_of_isIdentifierChar (h.name.char hname)).2.2 rfl
  rw [← Decimal.splitAtMark_append hcolon]
  simp [piece]

/-- A contained declaration is read back from its piece. -/
theorem readDeclaration_piece (h : d.Contained) (minify : Bool) :
    readDeclaration (piece minify d) = d := by
  have hsplit := splitAtMark_piece h minify []
  rw [List.append_nil, List.append_nil] at hsplit
  have hname : Text.SingleSpaced d.name.toList := by
    refine Text.singleSpaced_of_no_blank fun c hc => ?_
    exact (plain_of_isIdentifierChar (h.name.char hc)).2.1
  unfold readDeclaration
  simp only [hsplit]
  rw [Text.trim_append hname fun c hc => isBlank_of_mem_lead minify hc,
    Text.trim_append h.value.spaced fun c hc => isBlank_of_mem_gap minify hc]
  simp

theorem not_mem_gap (minify : Bool) : '\x7b' ∉ gap minify := by
  cases minify <;> decide

/-- Behind a selector without an opening brace, the first one begins the body. -/
theorem splitAtMark_rule (minify : Bool) {selector : String} (h : '\x7b' ∉ selector.toList)
    (declarations : List Declaration) :
    Decimal.splitAtMark '\x7b' (rule minify selector declarations).toList =
      (selector.toList ++ gap minify, body minify declarations ++ ['\x7d']) := by
  rw [toList_rule, Decimal.splitAtMark_append (List.not_mem_append h (not_mem_gap minify))]

/-- The body of contained declarations is read back as them, behind anything without an opening
brace. -/
theorem readFront_body (minify : Bool) {opening : List Char} (hopening : '\x7b' ∉ opening)
    {declarations : List Declaration} (h : ∀ d ∈ declarations, d.Contained) (rest : List Char) :
    readFront (opening ++ '\x7b' :: (body minify declarations ++ '\x7d' :: rest)) =
      (declarations, rest) := by
  -- No piece has one of the three delimiters, so cutting at them undoes putting together.
  have hpieces : ∀ piece' ∈ declarations.map (piece minify), ';' ∉ piece' := by
    intro piece' hpiece hmem
    obtain ⟨d, hd, rfl⟩ := List.mem_map.mp hpiece
    have hdelimiter := isDelimiter_of_mem_piece (h d hd) hmem
    cases hdelimiter
  have hclosing : '\x7d' ∉ body minify declarations := by
    intro hmem
    unfold body at hmem
    rcases List.mem_append.mp hmem with hdeclared | htrail
    · obtain ⟨d, hd, hpiece⟩ := List.mem_flatMap.mp hdeclared
      rcases List.mem_append.mp hpiece with hpiece | hsemicolon
      · have hdelimiter := isDelimiter_of_mem_piece (h d hd) hpiece
        cases hdelimiter
      · cases List.mem_singleton.mp hsemicolon
    · revert htrail
      cases minify <;> decide
  have hcut : Text.splitAtChar ';' (body minify declarations) =
      declarations.map (piece minify) ++ [trail minify] := by
    rw [← Text.splitAtChar_flatMap hpieces (by cases minify <;> decide), List.flatMap_map]
    rfl
  have hread : ∀ d ∈ declarations, (readDeclaration ∘ piece minify) d = id d :=
    fun d hd => readDeclaration_piece (h d hd) minify
  unfold readFront
  simp only [Decimal.splitAtMark_append hopening, Decimal.splitAtMark_append hclosing]
  rw [hcut, List.dropLast_concat, List.map_map, List.map_congr_left hread, List.map_id]

/-- A rule block of contained declarations is read back as them, in both layouts and behind any
selector without an opening brace. -/
theorem readRule_rule (minify : Bool) {selector : String} (hselector : '\x7b' ∉ selector.toList)
    {declarations : List Declaration} (h : ∀ d ∈ declarations, d.Contained) :
    readRule (rule minify selector declarations) = declarations := by
  have hopening : '\x7b' ∉ selector.toList ++ gap minify :=
    List.not_mem_append hselector (not_mem_gap minify)
  unfold readRule
  rw [toList_rule, readFront_body minify hopening h]

/-- It is read back behind its selector, whatever that is and whatever follows. -/
theorem readBehind?_rule (minify : Bool) (selector : String) {declarations : List Declaration}
    (h : ∀ d ∈ declarations, d.Contained) (rest : List Char) :
    readBehind? selector ((rule minify selector declarations).toList ++ rest) =
      some (declarations, rest) := by
  have hselector : selector.toList.isPrefixOf? ((rule minify selector declarations).toList ++ rest) =
      some (gap minify ++ '\x7b' :: (body minify declarations ++ '\x7d' :: rest)) := by
    rw [List.isPrefixOf?_eq_some_iff_append_eq, toList_rule]
    simp
  unfold readBehind?
  rw [hselector, Option.map_some, readFront_body minify (not_mem_gap minify) h]

end Css

end DesignTokens
