import DesignTokens.Proofs.Config.Valid
import DesignTokens.Proofs.Css.Sheet
import DesignTokens.Proofs.Css.Value
import DesignTokens.Proofs.Identifier
/-!
# Lines of style sheets

A text without carriage returns is read back as it was written.  The files of a build are such texts
if the settings give no mode and no import with a carriage return in it: a value has no blanks but
single spaces, and the other names are made of letters, digits, underscores and hyphens.
-/

set_option autoImplicit false

namespace DesignTokens

/-- No carriage return stands in a text. -/
def Text.NoReturn (s : String) : Prop :=
  '\r' ∉ s.toList

instance (s : String) : Decidable (Text.NoReturn s) :=
  inferInstanceAs (Decidable (_ ∉ _))

namespace Text

/-! ## Parts of a text -/

theorem NoReturn.append {s t : String} (hs : NoReturn s) (ht : NoReturn t) :
    NoReturn (s ++ t) := by
  unfold NoReturn
  rw [String.toList_append, List.mem_append, not_or]
  exact ⟨hs, ht⟩

theorem NoReturn.intercalate {separator : String} {parts : List String}
    (hseparator : NoReturn separator) (hparts : ∀ part ∈ parts, NoReturn part) :
    NoReturn (separator.intercalate parts) := by
  unfold NoReturn
  rw [String.toList_intercalate]
  cases parts with
  | nil => exact List.not_mem_nil
  | cons first rest =>
    rw [List.map_cons, Lists.intercalate_cons, List.mem_append, not_or]
    refine ⟨hparts first List.mem_cons_self, fun hmem => ?_⟩
    obtain ⟨part, hpart, hlater⟩ := List.mem_flatMap.mp hmem
    obtain ⟨later, hlast, rfl⟩ := List.mem_map.mp hpart
    cases List.mem_append.mp hlater with
    | inl hmem => exact hseparator hmem
    | inr hmem => exact hparts later (List.mem_cons_of_mem _ hlast) hmem

/-- A single-spaced text is on one line. -/
theorem SingleSpaced.noReturn {s : String} (h : SingleSpaced s.toList) : NoReturn s := by
  intro hmem
  exact absurd (h.eq_space hmem (by decide)) (by decide)

end Text

open Text

namespace Css

variable {config : Config}

/-! ## Values and names -/

theorem noReturn_of_isWord {s : String} (h : Json.IsWord s.toList) : NoReturn s := by
  intro hmem
  have hword := h _ hmem
  revert hword
  decide

theorem noReturn_renderText (s : String) (type : TokenType) : NoReturn (renderText s type) := by
  have htext : NoReturn (normalizeText s) := (singleSpaced_words s).1.noReturn
  have hnumbers : ∀ pair ∈ fontWeights, NoReturn pair.2 := by decide
  unfold renderText
  simp only
  split
  · split
    · exact ((by decide : NoReturn "\"").append htext).append (by decide)
    · exact htext
  · cases hweight : fontWeight? (normalizeText s) with
    | none => exact htext
    | some number =>
      obtain ⟨pair, hfind, rfl⟩ := Option.map_eq_some_iff.mp hweight
      exact hnumbers pair (List.mem_of_find?_eq_some hfind)
  · exact htext

/-- No literal is written with a carriage return, whatever its type. -/
theorem noReturn_renderValue (value : Scalar) (type : TokenType) :
    NoReturn (renderValue value type) := by
  cases value with
  | bool b =>
    have hwords : ∀ b : Bool, NoReturn (if b then "true" else "false") := by decide
    exact hwords b
  | int n => exact noReturn_of_isWord (Json.isWord_render_int n)
  | float x =>
    unfold renderValue
    simp only
    split
    · exact noReturn_of_isWord (Json.isWord_render_int _)
    · exact noReturn_of_isWord (isWord_shownFloat x)
  | str s => exact noReturn_renderText s type

theorem noReturn_ofPath (path : TokenPath) : NoReturn (Identifier.ofPath path) := by
  obtain ⟨body, _, hbody, hlist⟩ := Identifier.exists_body_ofPath path
  intro hmem
  rw [hlist] at hmem
  rcases List.mem_cons.mp hmem with heq | hmem
  · revert heq
    decide
  · rcases List.mem_cons.mp hmem with heq | hmem
    · revert heq
      decide
    · have hchar := hbody _ hmem
      revert hchar
      decide

theorem noReturn_of_isFileSafe {s : String} (h : Field.isFileSafe s = true) : NoReturn s :=
  Field.not_mem_of_isFileSafe h (by decide)

/-- A capital comes of a letter only. -/
theorem toUpper_ne {c d : Char} (hd : d.toNat < 65) (h : c ≠ d) : c.toUpper ≠ d := by
  unfold Char.toUpper
  split
  · rename_i hletter
    intro heq
    have hcode := congrArg (fun d => d.val.toNat) heq
    simp only [UInt32.toNat_add, UInt32.le_iff_toNat_le] at hcode hletter
    simp at hcode hletter
    omega
  · exact h

theorem toLower_ne {c d : Char} (hd : d.toNat < 65) (h : c ≠ d) : c.toLower ≠ d := by
  unfold Char.toLower
  split
  · rename_i hletter
    intro heq
    have hcode := congrArg (fun d => d.val.toNat) heq
    simp only [UInt32.toNat_add, ge_iff_le, UInt32.le_iff_toNat_le] at hcode hletter
    simp at hcode hletter
    omega
  · exact h

/-- A capital adds nothing but letters. -/
theorem not_mem_capitalize {group : String} {d : Char} (hd : d.toNat < 65)
    (h : d ∉ group.toList) : d ∉ (capitalize group).toList := by
  have hchar : ∀ c ∈ group.toList, c ≠ d := by
    rintro c hc rfl
    exact h hc
  unfold capitalize
  split
  · exact List.not_mem_nil
  · rename_i c rest hlist
    rw [hlist] at hchar
    rw [String.toList_ofList, List.mem_cons, not_or, List.mem_map]
    refine ⟨(toUpper_ne hd (hchar c List.mem_cons_self)).symm, ?_⟩
    rintro ⟨e, he, hlower⟩
    exact toLower_ne hd (hchar e (List.mem_cons_of_mem _ he)) hlower

theorem noReturn_capitalize {group : String} (h : NoReturn group) : NoReturn (capitalize group) :=
  not_mem_capitalize (by decide) h

/-! ## Files -/

theorem noReturn_header {fileName description : String} {facts : List (String × String)}
    (hname : NoReturn fileName) (hdescription : NoReturn description)
    (hfacts : ∀ fact ∈ facts, NoReturn fact.1 ∧ NoReturn fact.2) :
    NoReturn (header fileName description facts) := by
  have hcomment {text : String} (htext : NoReturn text) : NoReturn (comment text) :=
    ((by decide : NoReturn "/* ").append htext).append (by decide)
  unfold header
  simp only
  refine (NoReturn.intercalate (by decide) ?_).append (by decide)
  rw [List.cons_append, List.forall_mem_cons]
  refine ⟨hcomment hname, fun part hpart => ?_⟩
  rcases List.mem_append.mp hpart with hdescribed | hstated
  · split at hdescribed
    · cases hdescribed
    · rw [List.mem_singleton.mp hdescribed]
      exact hcomment hdescription
  · split at hstated
    · cases hstated
    · rw [List.cons_append, List.mem_cons, List.mem_append, List.mem_singleton] at hstated
      rcases hstated with rfl | hline | rfl
      · decide
      · obtain ⟨fact, hfact, rfl⟩ := List.mem_map.mp hline
        obtain ⟨hlabel, hvalue⟩ := hfacts fact hfact
        exact (((by decide : NoReturn " * ").append hlabel).append (by decide)).append hvalue
      · decide

theorem noReturn_rule (minify : Bool) {selector : String} {declarations : List Declaration}
    (hselector : NoReturn selector)
    (hdeclarations : ∀ d ∈ declarations, NoReturn d.name ∧ NoReturn d.value) :
    NoReturn (rule minify selector declarations) := by
  unfold rule
  split
  · refine ((hselector.append (by decide)).append (NoReturn.intercalate (by decide) ?_)).append
      (by decide)
    intro part hpart
    obtain ⟨d, hd, rfl⟩ := List.mem_map.mp hpart
    obtain ⟨hname, hvalue⟩ := hdeclarations d hd
    exact ((hname.append (by decide)).append hvalue).append (by decide)
  · refine NoReturn.intercalate (by decide) ?_
    rw [List.cons_append, List.forall_mem_cons]
    refine ⟨hselector.append (by decide), fun part hpart => ?_⟩
    cases List.mem_append.mp hpart with
    | inl hline =>
      obtain ⟨d, hd, rfl⟩ := List.mem_map.mp hline
      obtain ⟨hname, hvalue⟩ := hdeclarations d hd
      exact (((((by decide : NoReturn "  ").append hname).append (by decide)).append
        hvalue).append (by decide))
    | inr hlast =>
      rw [List.mem_singleton.mp hlast]
      decide

theorem noReturn_modeSelector {mode : String} (hmode : NoReturn mode) (defaultMode : String) :
    NoReturn (modeSelector defaultMode mode) := by
  unfold modeSelector
  split
  · decide
  · exact ((by decide : NoReturn "[data-mode=\"").append hmode).append (by decide)

/-- What settings may give freely, and what becomes part of file names, has no carriage return. -/
structure Plain (config : Config) (modes : List String)
    (declare : String → TokenPath → Declaration) (sheets : List (String × List TokenPath)) :
    Prop where
  theme : NoReturn config.theme
  modes : ∀ mode ∈ modes, NoReturn mode
  imports : ∀ target ∈ config.indexImports, NoReturn target
  groups : ∀ sheet ∈ sheets, NoReturn sheet.1
  declarations : ∀ mode path, NoReturn (declare mode path).name ∧ NoReturn (declare mode path).value

variable {modes : List String} {declare : String → TokenPath → Declaration}
  {sheets : List (String × List TokenPath)}

theorem noReturn_importLine {target : String} (h : NoReturn target) :
    NoReturn (importLine target) :=
  ((by decide : NoReturn "@import '").append h).append (by decide)

/-- Then no file has one. -/
theorem Plain.noReturn_filesOf (h : Plain config modes declare sheets) {file : OutputFile}
    (hfile : file ∈ filesOf config modes declare sheets) : NoReturn file.content := by
  have hsheetName {group : String} (hgroup : NoReturn group) : NoReturn (sheetName group) :=
    hgroup.append (by decide)
  have hindex : NoReturn (config.theme ++ "/" ++ indexName) :=
    (h.theme.append (by decide)).append (by decide)
  unfold filesOf indexFiles at hfile
  simp only [List.mem_append, List.mem_map, List.mem_cons, List.not_mem_nil, or_false] at hfile
  rcases hfile with ⟨sheet, hsheet, rfl⟩ | rfl | rfl
  · have hgroup := h.groups sheet hsheet
    have hmodes : NoReturn (", ".intercalate modes) := NoReturn.intercalate (by decide) h.modes
    have hcount (n : Nat) : NoReturn (toString n) := noReturn_of_isWord (Json.isWord_render_int n)
    refine (NoReturn.append ?_ (NoReturn.intercalate (by decide) ?_)).append (by decide)
    · refine noReturn_header (hsheetName hgroup)
        ((noReturn_capitalize hgroup).append (by decide)) ?_
      simp only [List.forall_mem_cons]
      exact ⟨⟨by decide, h.theme⟩, ⟨by decide, hmodes⟩, ⟨by decide, hgroup⟩,
        ⟨by decide, hcount _⟩, List.forall_mem_nil _⟩
    · intro block hblock
      obtain ⟨mode, hmode, rfl⟩ := List.mem_map.mp hblock
      refine noReturn_rule _ (noReturn_modeSelector (h.modes mode hmode) _) fun d hd => ?_
      obtain ⟨path, _, rfl⟩ := List.mem_map.mp hd
      exact h.declarations mode path
  · refine (noReturn_header hindex (by decide) (List.forall_mem_nil _)).append
      (NoReturn.intercalate (by decide) ?_)
    intro line hline
    obtain ⟨name, hname, rfl⟩ := List.mem_map.mp hline
    obtain ⟨sheet, hsheet, rfl⟩ := List.mem_map.mp hname
    exact noReturn_importLine ((by decide : NoReturn "./").append
      (hsheetName (h.groups sheet hsheet)))
  · refine ((noReturn_header (by decide) (by decide) (List.forall_mem_nil _)).append
      (NoReturn.intercalate (by decide) ?_)).append
      (noReturn_importLine ((by decide : NoReturn "./").append hindex))
    intro line hline
    obtain ⟨target, htarget, rfl⟩ := List.mem_map.mp hline
    exact noReturn_importLine (h.imports target htarget)

end Css

end DesignTokens
