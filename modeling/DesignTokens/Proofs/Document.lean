import DesignTokens.Document
/-!
# Flattening a document

A document that cannot be flattened is reported under its own name, unless flattening breaks down;
and every token of a flattened document is made from one of its nodes, carries the name of its
layer, and has a value that stays within a declaration.
-/

set_option autoImplicit false

namespace DesignTokens

/-- A failure that one document accounts for: a fault of the document with this name, or a
breakdown other than that of a style sheet. -/
inductive Failure.OfDocument (identifier : String) : Failure → Prop where
  | fault (fault : DocumentFault) (place : DocumentPlace) :
      OfDocument identifier (.error (.document identifier fault place))
  | breakdown {cause : Breakdown} (h : cause ≠ .missingEntry) :
      OfDocument identifier (.breakdown cause)

/-- A literal whose text has no character that ends a declaration or a rule. -/
def Scalar.Contained : Scalar → Prop
  | .str s => ∀ c ∈ s.toList, Document.isDelimiter c = false
  | .bool _ | .int _ | .float _ => True

namespace Document

open Datum (Pairs)

variable {name : DocumentName} {path : TokenPath} {inherited : Option TokenType}
  {fields members : Pairs} {node : Datum} {tokens : List Token} {failure : Failure}

/-! ## One token -/

theorem ofDocument_faultAt (fault : DocumentFault) :
    (faultAt name fault path).OfDocument name.identifier := by
  unfold faultAt
  split
  · exact .fault fault (.atPath path)
  · exact .breakdown nofun

theorem declaredType_ofDocument {given : Datum}
    (h : declaredType name path given = .error failure) :
    failure.OfDocument name.identifier := by
  unfold declaredType at h
  split at h
  · split at h
    · cases h
    · cases h
      exact ofDocument_faultAt _
  · cases h
    exact ofDocument_faultAt _

theorem notScalar_ofDocument (raw : Datum) :
    (notScalar name path raw).OfDocument name.identifier := by
  unfold notScalar
  split
  · exact .breakdown (by simp)
  · exact .breakdown (by simp)
  · exact ofDocument_faultAt _

theorem tokenValue_ofDocument {raw : Datum} (h : tokenValue name path raw = .error failure) :
    failure.OfDocument name.identifier := by
  unfold tokenValue at h
  split at h
  · cases h
    exact notScalar_ofDocument raw
  · split at h
    · cases h
    · cases h
      exact ofDocument_faultAt _
  · split at h
    · split at h
      · cases h
        exact ofDocument_faultAt _
      · cases h
    · cases h

theorem tokenType_ofDocument {value : TokenValue}
    (h : tokenType name path inherited fields value = .error failure) :
    failure.OfDocument name.identifier := by
  unfold tokenType at h
  split at h
  · rename_i given _
    cases hdeclared : declaredType name path given with
    | ok type => simp [hdeclared, Except.map] at h
    | error failure' =>
      rw [hdeclared] at h
      cases h
      exact declaredType_ofDocument hdeclared
  · cases h

theorem token_ofDocument (h : token name path inherited fields = .error failure) :
    failure.OfDocument name.identifier := by
  unfold token at h
  simp only [bind, Except.bind, pure, Except.pure] at h
  split at h
  · rename_i failure' hvalue
    cases h
    exact tokenValue_ofDocument hvalue
  · split at h
    · rename_i failure' htype
      cases h
      exact tokenType_ofDocument htype
    · cases h

theorem groupType_ofDocument (h : groupType name path inherited fields = .error failure) :
    failure.OfDocument name.identifier := by
  unfold groupType at h
  split at h
  · rename_i given _
    cases hdeclared : declaredType name path given with
    | ok type => simp [hdeclared, Except.map] at h
    | error failure' =>
      rw [hdeclared] at h
      cases h
      exact declaredType_ofDocument hdeclared
  · cases h

/-- A token is made of a value and a type that its node has. -/
theorem token_eq_ok {tok : Token} (h : token name path inherited fields = .ok tok) :
    ∃ value type,
      tokenValue name path ((firstOf fields ["$value", "value"]).getD .null) = .ok value ∧
      tokenType name path inherited fields value = .ok type ∧
      tok = ⟨path, type, value, name.layer, description fields⟩ := by
  unfold token at h
  simp only [bind, Except.bind, pure, Except.pure] at h
  split at h
  · cases h
  · rename_i value hvalue
    split at h
    · cases h
    · rename_i type htype
      cases h
      exact ⟨value, type, hvalue, htype, rfl⟩

theorem path_of_token {tok : Token} (h : token name path inherited fields = .ok tok) :
    tok.path = path := by
  obtain ⟨_, _, _, _, rfl⟩ := token_eq_ok h
  rfl

theorem layer_of_token {tok : Token} (h : token name path inherited fields = .ok tok) :
    tok.layer = name.layer := by
  obtain ⟨_, _, _, _, rfl⟩ := token_eq_ok h
  rfl

/-! ## Whole documents -/

/-- What flattening promises of its outcome: every token carries the name of its layer, and a
failure is one that the document accounts for. -/
def Promised (name : DocumentName) : Except Failure (List Token) → Prop
  | .ok tokens => ∀ tok ∈ tokens, tok.layer = name.layer
  | .error failure => failure.OfDocument name.identifier

mutual

theorem promised_flattenMember {inherited : Option TokenType} {path : TokenPath} :
    ∀ node : Datum, Promised name (flattenMember name inherited path node)
  | .map fields => by
    unfold flattenMember
    split
    · cases htoken : token name path inherited fields with
      | error failure => exact token_ofDocument htoken
      | ok tok =>
        intro tok' hmem
        rw [List.mem_singleton.mp hmem]
        exact layer_of_token htoken
    · split
      · rename_i failure hgroup
        exact groupType_ofDocument hgroup
      · exact promised_flattenMembers fields
  | .null | .bool _ | .int _ | .float _ | .str _ | .day _ | .moment _ | .list _ => by
    unfold flattenMember
    exact ofDocument_faultAt _

theorem promised_flattenMembers {inherited : Option TokenType} {path : TokenPath} :
    ∀ members : Pairs, Promised name (flattenMembers name inherited path members)
  | [] => by
    unfold flattenMembers
    intro tok hmem
    cases hmem
  | (key, node) :: rest => by
    unfold flattenMembers
    split
    · intro tok hmem
      cases hmem
    · rename_i heq
      rw [List.cons.injEq, Prod.mk.injEq] at heq
      obtain ⟨⟨_, rfl⟩, rfl⟩ := heq
      split
      · exact promised_flattenMembers rest
      · split
        · exact ofDocument_faultAt _
        · split
          · rename_i failure hfirst
            rw [← hfirst]
            exact promised_flattenMember node
          · rename_i first hfirst
            have hmember : Promised name (.ok first) := by
              rw [← hfirst]
              exact promised_flattenMember node
            split
            · rename_i failure hothers
              rw [← hothers]
              exact promised_flattenMembers rest
            · rename_i others hothers
              have hmembers : Promised name (.ok others) := by
                rw [← hothers]
                exact promised_flattenMembers rest
              intro tok hmem
              rcases List.mem_append.mp hmem with hmem | hmem
              · exact hmember tok hmem
              · exact hmembers tok hmem
    · exact .breakdown (by simp)

end

theorem promised_flatten (name : DocumentName) (document : Datum) :
    Promised name (flatten name document) := by
  unfold flatten
  split
  · split
    · rename_i failure hgroup
      exact groupType_ofDocument hgroup
    · exact promised_flattenMembers _
  · exact .fault _ _

/-- A document that cannot be flattened is reported under its own name. -/
theorem flatten_ofDocument {document : Datum} (h : flatten name document = .error failure) :
    failure.OfDocument name.identifier := by
  have hpromised := promised_flatten name document
  rwa [h] at hpromised

/-- Every token of a document carries the name of the document's layer. -/
theorem layer_of_mem_flatten {document : Datum}
    (h : flatten name document = .ok tokens) : ∀ tok ∈ tokens, tok.layer = name.layer := by
  have hpromised := promised_flatten name document
  rwa [h] at hpromised

/-! ## Where tokens come from -/

/-- A member is flattened if it is a token, or a group whose members are flattened. -/
theorem flattenMember_eq_ok (h : flattenMember name inherited path node = .ok tokens) :
    ∃ fields, node = .map fields ∧
      ((isTokenNode node = true ∧ ∃ tok, token name path inherited fields = .ok tok ∧
          tokens = [tok]) ∨
        (isTokenNode node = false ∧ ∃ type, groupType name path inherited fields = .ok type ∧
          flattenMembers name type path fields = .ok tokens)) := by
  unfold flattenMember at h
  split at h
  · rename_i fields
    refine ⟨fields, rfl, ?_⟩
    split at h
    · rename_i htoken
      cases hmade : token name path inherited fields with
      | error failure =>
        rw [hmade] at h
        cases h
      | ok tok =>
        rw [hmade] at h
        cases h
        exact .inl ⟨htoken, tok, rfl, rfl⟩
    · rename_i hgroup
      split at h
      · cases h
      · rename_i type htype
        exact .inr ⟨by simpa using hgroup, type, htype, h⟩
  · cases h

/-- The members of a group are flattened if those that do not describe it are, none of them under a
blank key; their tokens are those of the group. -/
theorem flattenMembers_eq_ok (h : flattenMembers name inherited path members = .ok tokens) :
    (∀ key node, (.str key, node) ∈ members → isMetaKey key = false →
      Text.allBlank key = false ∧
        ∃ own ⊆ tokens, flattenMember name inherited (path ++ [key]) node = .ok own) ∧
    ∀ tok ∈ tokens, ∃ key node own, (.str key, node) ∈ members ∧ isMetaKey key = false ∧
      flattenMember name inherited (path ++ [key]) node = .ok own ∧ tok ∈ own := by
  induction members generalizing tokens with
  | nil =>
    unfold flattenMembers at h
    cases h
    exact ⟨nofun, nofun⟩
  | cons pair rest ih =>
    unfold flattenMembers at h
    split at h
    · contradiction
    · rename_i key node _ heq
      cases heq
      split at h
      · rename_i hkey
        obtain ⟨hmembers, htokens⟩ := ih h
        refine ⟨fun key' node' hmem hkey' => ?_, fun tok htok => ?_⟩
        · rcases List.mem_cons.mp hmem with heq | hmem
          · cases heq
            simp [hkey] at hkey'
          · exact hmembers key' node' hmem hkey'
        · obtain ⟨key', node', own, hmem, hrest⟩ := htokens tok htok
          exact ⟨key', node', own, List.mem_cons_of_mem _ hmem, hrest⟩
      · rename_i hkey
        rw [Bool.not_eq_true] at hkey
        split at h
        · cases h
        · rename_i hblank
          rw [Bool.not_eq_true] at hblank
          split at h
          · cases h
          · rename_i first hfirst
            split at h
            · cases h
            · rename_i others hothers
              cases h
              obtain ⟨hmembers, htokens⟩ := ih hothers
              refine ⟨fun key' node' hmem hkey' => ?_, fun tok htok => ?_⟩
              · rcases List.mem_cons.mp hmem with heq | hmem
                · cases heq
                  exact ⟨hblank, first, List.subset_append_left _ _, hfirst⟩
                · obtain ⟨hblank', own, hsub, hown⟩ := hmembers key' node' hmem hkey'
                  exact ⟨hblank', own, List.Subset.trans hsub (List.subset_append_right _ _), hown⟩
              · rcases List.mem_append.mp htok with htok | htok
                · exact ⟨key, node, first, List.mem_cons_self, hkey, hfirst, htok⟩
                · obtain ⟨key', node', own, hmem, hrest⟩ := htokens tok htok
                  exact ⟨key', node', own, List.mem_cons_of_mem _ hmem, hrest⟩
    · cases h

theorem flatten_eq_ok {document : Datum} (h : flatten name document = .ok tokens) :
    ∃ root type, document = .map root ∧ groupType name [] none root = .ok type ∧
      flattenMembers name type [] root = .ok tokens := by
  unfold flatten at h
  split at h
  · rename_i root
    split at h
    · cases h
    · rename_i type htype
      exact ⟨root, type, rfl, htype, h⟩
  · cases h

/-- A token that is made from a node. -/
def IsNodeToken (name : DocumentName) (tok : Token) : Prop :=
  ∃ path inherited fields, token name path inherited fields = .ok tok

theorem exists_node_of_flattenMembers {path : TokenPath} {inherited : Option TokenType}
    {members : Pairs} {tokens : List Token}
    (h : flattenMembers name inherited path members = .ok tokens) :
    ∀ tok ∈ tokens, ∃ key keys inherited' fields,
      token name (path ++ key :: keys) inherited' fields = .ok tok := by
  intro tok htok
  obtain ⟨key, node, own, hmem, _, hown, htok⟩ := (flattenMembers_eq_ok h).2 tok htok
  obtain ⟨fields, rfl, ⟨_, tok', hmade, rfl⟩ | ⟨_, type, _, hfields⟩⟩ := flattenMember_eq_ok hown
  · rw [List.mem_singleton.mp htok]
    exact ⟨key, [], inherited, fields, hmade⟩
  · have hsmaller := List.sizeOf_lt_of_mem hmem
    obtain ⟨key', keys, hnode⟩ := exists_node_of_flattenMembers hfields tok htok
    rw [List.append_assoc] at hnode
    exact ⟨key, key' :: keys, hnode⟩
termination_by sizeOf members
decreasing_by
  simp only [Prod.mk.sizeOf_spec, Datum.map.sizeOf_spec] at hsmaller
  omega

/-- Every token of a flattened document is made from a node below its root. -/
theorem exists_node_of_mem_flatten {document : Datum} (h : flatten name document = .ok tokens) :
    ∀ tok ∈ tokens, ∃ key keys inherited fields,
      token name (key :: keys) inherited fields = .ok tok := by
  obtain ⟨_, _, _, _, hmembers⟩ := flatten_eq_ok h
  exact exists_node_of_flattenMembers hmembers

/-- No token of a document stands at its root. -/
theorem path_ne_nil_of_mem_flatten {document : Datum}
    (h : flatten name document = .ok tokens) : ∀ tok ∈ tokens, tok.path ≠ [] := by
  intro tok hmem
  obtain ⟨key, keys, inherited, fields, htoken⟩ := exists_node_of_mem_flatten h tok hmem
  rw [path_of_token htoken]
  exact List.cons_ne_nil key keys

/-- Every token of a flattened document is made from a node. -/
theorem isNodeToken_of_mem_flatten {document : Datum}
    (h : flatten name document = .ok tokens) : ∀ tok ∈ tokens, IsNodeToken name tok := by
  intro tok hmem
  obtain ⟨key, keys, hnode⟩ := exists_node_of_mem_flatten h tok hmem
  exact ⟨key :: keys, hnode⟩

/-! ## What values hold -/

/-- A literal of a document has no character that ends a declaration or a rule. -/
theorem contained_of_tokenValue {raw : Datum} {literal : Scalar}
    (h : tokenValue name path raw = .ok (.literal literal)) : literal.Contained := by
  unfold tokenValue at h
  split at h
  · cases h
  · split at h
    · cases h
      trivial
    · cases h
  · split at h
    · rename_i s _
      split at h
      · cases h
      · rename_i hdelimiter
        cases h
        intro c hc
        simpa using fun hc' => hdelimiter (List.any_eq_true.mpr ⟨c, hc, hc'⟩)
    · rename_i hother
      rw [Except.ok.injEq] at h
      cases literal with
      | str s => exact absurd h (hother s)
      | bool _ | int _ | float _ => trivial

theorem contained_of_token {tok : Token} (h : token name path inherited fields = .ok tok)
    {literal : Scalar} (hvalue : tok.value = .literal literal) : literal.Contained := by
  obtain ⟨value, type, hmade, _, rfl⟩ := token_eq_ok h
  cases hvalue
  exact contained_of_tokenValue hmade

/-- All literals of a flattened document are contained. -/
theorem contained_of_mem_flatten {document : Datum}
    (h : flatten name document = .ok tokens) {tok : Token} (hmem : tok ∈ tokens)
    {literal : Scalar} (hvalue : tok.value = .literal literal) : literal.Contained := by
  obtain ⟨path, inherited, fields, htoken⟩ := isNodeToken_of_mem_flatten h tok hmem
  exact contained_of_token htoken hvalue

end Document

end DesignTokens
