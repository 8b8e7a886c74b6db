import DesignTokens.Config.File
import DesignTokens.Css.Sheet
import DesignTokens.Proofs.Lists
import Mathlib.Data.List.Nodup
/-!
# Valid settings

What validation promises of settings, wherever they come from, and what the rest of a build takes
from it.
-/

set_option autoImplicit false

namespace DesignTokens

/-! ## Checked parts -/

namespace Checked

variable {α β : Type}

theorem and_eq_ok_iff {first : Checked (α → β)} {second : Checked α} {value : β} :
    Checked.and first second = .ok value ↔
      ∃ f x, first = .ok f ∧ second = .ok x ∧ value = f x := by
  unfold Checked.and
  constructor
  · intro h
    split at h
    · rename_i f x
      exact ⟨f, x, rfl, rfl, (Except.ok.inj h).symm⟩
    · cases h
    · cases h
    · cases h
  · rintro ⟨f, x, rfl, rfl, rfl⟩
    rfl

theorem within_eq_ok_iff {step : FieldStep} {part : Checked α} {value : α} :
    Checked.within step part = .ok value ↔ part = .ok value := by
  cases part with
  | error problems => exact iff_of_false nofun nofun
  | ok value => exact Iff.rfl

/-- A list passes its check if every member does. -/
theorem each_eq_ok_iff {check : β → Checked α} {position : Nat} {given : List β}
    {values : List α} : Checked.each check position given = .ok values ↔
      List.Forall₂ (fun given value => check given = .ok value) given values := by
  induction given generalizing position values with
  | nil =>
    rw [each, List.forall₂_nil_left_iff, Except.ok.injEq]
    exact eq_comm
  | cons first rest ih =>
    simp only [each, and_eq_ok_iff, within_eq_ok_iff, List.forall₂_cons_left_iff, ih]
    constructor
    · rintro ⟨_, others, ⟨_, value, hcons, hvalue, rfl⟩, hothers, rfl⟩
      cases hcons
      exact ⟨value, others, hvalue, hothers, rfl⟩
    · rintro ⟨value, others, hvalue, hothers, rfl⟩
      exact ⟨_, others, ⟨_, value, rfl, hvalue, rfl⟩, hothers, rfl⟩

end Checked

/-! ## What validation promises -/

/-- A layer with a document path or data of its own. -/
def LayerSource.HasOrigin (layer : LayerSource) : Prop :=
  layer.source.isSome = true ∨ layer.data.isSome = true

/-- The modes are distinct and not blank, and the default mode is one of them; the layers have
distinct names, an origin each, and known modes; and no group takes the name of the index. -/
structure Config.Valid (config : Config) : Prop where
  modes_nodup : config.modes.Nodup
  modes_not_blank : ∀ mode ∈ config.modes, Text.allBlank mode = false
  default_mem : config.defaultMode ∈ config.modes
  names_nodup : (config.layers.map (·.name)).Nodup
  origins : ∀ layer ∈ config.layers, layer.HasOrigin
  layer_modes : ∀ layer ∈ config.layers, ∀ mode ∈ layer.mode, mode ∈ config.modes
  index_free : "index" ∉ config.layers.map (·.group)

/-- The theme and the groups can be stems of file names. -/
structure Config.FileSafe (config : Config) : Prop where
  theme : Field.isFileSafe config.theme = true
  groups : ∀ layer ∈ config.layers, Field.isFileSafe layer.group = true

/-! ## From checks to what they promise -/

/-- A text is checked to be the stem of a file name, and kept as it is. -/
theorem Field.fileSafeText_eq_ok_iff {s t : String} :
    fileSafeText (.str s) = .ok t ↔ isFileSafe s = true ∧ s = t := by
  unfold fileSafeText text
  simp only
  split
  · rename_i hsafe
    rw [Except.ok.injEq]
    exact (and_iff_right hsafe).symm
  · rename_i hrefused
    exact iff_of_false nofun fun h => hrefused h.1

/-- The stem of a file name is not empty, and has no character but letters, digits, underscores and
hyphens. -/
theorem Field.isFileSafe_iff {s : String} :
    isFileSafe s = true ↔ s ≠ "" ∧ ∀ c ∈ s.toList, isIdentifierChar c = true := by
  unfold isFileSafe
  rw [Bool.and_eq_true, decide_eq_true_eq, List.all_eq_true]

theorem Field.not_mem_of_isFileSafe {s : String} (h : isFileSafe s = true) {c : Char}
    (hc : isIdentifierChar c = false) : c ∉ s.toList := by
  intro hmem
  rw [(isFileSafe_iff.mp h).2 c hmem] at hc
  cases hc

namespace Config

/-- No name is reported as repeated if and only if none is. -/
theorem repeatedNames_eq_nil_iff {names : List String} :
    repeatedNames names = [] ↔ names.Nodup := by
  rw [List.nodup_iff_count_le_one, List.eq_nil_iff_forall_not_mem]
  unfold repeatedNames
  simp only [List.mem_mergeSort, List.mem_eraseDups, List.mem_filter, decide_eq_true_eq]
  constructor
  · intro hnone name
    by_contra hcount
    rw [Nat.not_le] at hcount
    exact hnone name ⟨List.count_pos_iff.mp (Nat.lt_of_succ_lt hcount), hcount⟩
  · intro hcount name hrepeated
    exact Nat.not_lt_of_le (hcount name) hrepeated.2

/-- A list that must have a text has one. -/
theorem nonEmptyTexts_ne_nil {given : Datum} {texts : List String}
    (h : Field.nonEmptyTexts given = .ok texts) : texts ≠ [] := by
  unfold Field.nonEmptyTexts at h
  split at h
  · cases h
  · rename_i hne
    unfold Field.texts at h
    split at h
    · rintro rfl
      rw [Checked.each_eq_ok_iff, List.forall₂_nil_right_iff] at h
      exact hne (h ▸ rfl)
    · cases h

/-- A checked list of modes has distinct ones that are not blank. -/
theorem modeList_spec {given : Datum} {modes : List String} (h : modeList given = .ok modes) :
    modes ≠ [] ∧ modes.Nodup ∧ ∀ mode ∈ modes, Text.allBlank mode = false := by
  unfold modeList at h
  split at h
  · cases h
  · rename_i modes' htexts
    split at h
    · cases h
    · rename_i hblank
      split at h
      · cases h
      · rename_i hlength
        cases h
        refine ⟨nonEmptyTexts_ne_nil htexts, ?_, ?_⟩
        · exact Lists.nodup_of_length_eraseDups (not_not.mp hlength)
        · simpa using hblank

/-- A text that is checked to be a stem of a file name is one, if its default is. -/
theorem isFileSafe_of_optional {fields : Datum.Pairs} {name default value : String}
    (hdefault : Field.isFileSafe default = true)
    (h : Field.optional fields name default Field.fileSafeText = .ok value) :
    Field.isFileSafe value = true := by
  have hread := Checked.within_eq_ok_iff.mp h
  split at hread
  · unfold Field.fileSafeText at hread
    split at hread
    · split at hread
      · rename_i hsafe
        rwa [← Except.ok.inj hread]
      · cases hread
    · cases hread
  · rwa [← Except.ok.inj hread]

theorem requireOrigin_eq_ok_iff {layer checked : LayerSource} :
    layer.requireOrigin = .ok checked ↔ layer.HasOrigin ∧ layer = checked := by
  unfold LayerSource.requireOrigin Checked.require LayerSource.HasOrigin
  rw [← Bool.or_eq_true]
  split
  · rename_i horigin
    rw [and_iff_right horigin]
    exact ⟨Except.ok.inj, congrArg Except.ok⟩
  · rename_i hnone
    exact iff_of_false nofun fun h => hnone h.1

/-- A layer source is read field by field. -/
theorem layerSource_eq_ok_iff {fields : Datum.Pairs} {layer : LayerSource} :
    LayerSource.ofFields fields = .ok layer ↔
      Field.required fields "name" Field.nonEmptyText = .ok layer.name ∧
      Field.optional fields "source" none (Field.orNull Field.text) = .ok layer.source ∧
      Field.optional fields "data" none (Field.orNull Field.textMap) = .ok layer.data ∧
      Field.optional fields "mode" none (Field.orNull Field.text) = .ok layer.mode ∧
      Field.optional fields "group" "tokens" Field.fileSafeText = .ok layer.group ∧
      Field.optional fields "emit" true Field.truth = .ok layer.emit ∧
      Field.optional fields "optional" false Field.truth = .ok layer.skippable ∧
      layer.HasOrigin := by
  unfold LayerSource.ofFields
  simp only
  constructor
  · intro h
    split at h
    · rename_i built hbuilt
      obtain ⟨horigin, rfl⟩ := requireOrigin_eq_ok_iff.mp h
      simp only [Checked.and_eq_ok_iff] at hbuilt
      obtain ⟨_, _, ⟨_, _, ⟨_, _, ⟨_, _, ⟨_, _, ⟨_, _, ⟨_, _, hmk, hname, rfl⟩, hsource, rfl⟩,
        hdata, rfl⟩, hmode, rfl⟩, hgroup, rfl⟩, hemit, rfl⟩, hskippable, rfl⟩ := hbuilt
      cases hmk
      exact ⟨hname, hsource, hdata, hmode, hgroup, hemit, hskippable, horigin⟩
    · cases h
  · rintro ⟨hname, hsource, hdata, hmode, hgroup, hemit, hskippable, horigin⟩
    simp only [hname, hsource, hdata, hmode, hgroup, hemit, hskippable, Checked.and]
    exact requireOrigin_eq_ok_iff.mpr ⟨horigin, rfl⟩

/-- A checked layer source has an origin, and a group that can be the stem of a file name. -/
theorem layerSource_spec (given : Datum) (layer : LayerSource)
    (h : LayerSource.ofDatum given = .ok layer) :
    layer.HasOrigin ∧ Field.isFileSafe layer.group = true := by
  unfold LayerSource.ofDatum at h
  split at h
  · obtain ⟨_, _, _, _, hgroup, _, _, horigin⟩ := layerSource_eq_ok_iff.mp h
    exact ⟨horigin, isFileSafe_of_optional (by decide) hgroup⟩
  · cases h

theorem layerList_spec {given : Datum} {layers : List LayerSource}
    (h : layerList given = .ok layers) :
    ∀ layer ∈ layers, layer.HasOrigin ∧ Field.isFileSafe layer.group = true := by
  unfold layerList at h
  split at h
  · cases h
  · intro layer hlayer
    obtain ⟨given, _, hgiven⟩ :=
      Lists.exists_right_of_forall₂ (Checked.each_eq_ok_iff.mp h).flip hlayer
    exact layerSource_spec given layer hgiven
  · cases h

/-! ## From a draft to settings -/

/-- What the fields of a draft have been checked for. -/
structure Draft.Sound (draft : Draft) : Prop where
  modes_ne_nil : draft.modes ≠ []
  modes_nodup : draft.modes.Nodup
  modes_not_blank : ∀ mode ∈ draft.modes, Text.allBlank mode = false
  origins : ∀ layer ∈ draft.layers, layer.HasOrigin
  theme_safe : Field.isFileSafe draft.theme = true
  groups_safe : ∀ layer ∈ draft.layers, Field.isFileSafe layer.group = true

/-- A draft is read field by field. -/
theorem draftOf_eq_ok_iff {fields : Datum.Pairs} {dataDir outputDir : Checked Path}
    {draft : Draft} : draftOf fields dataDir outputDir = .ok draft ↔
      Field.optional fields "theme" "theme" Field.fileSafeText = .ok draft.theme ∧
      dataDir = .ok draft.dataDir ∧
      outputDir = .ok draft.outputDir ∧
      Field.required fields "modes" modeList = .ok draft.modes ∧
      Field.optional fields "default_mode" none (Field.orNull Field.text) = .ok draft.defaultMode ∧
      Field.required fields "layers" layerList = .ok draft.layers ∧
      Field.optional fields "index_imports" [] Field.texts = .ok draft.indexImports ∧
      Field.optional fields "minify" false Field.truth = .ok draft.minify := by
  unfold draftOf
  constructor
  · intro h
    simp only [Checked.and_eq_ok_iff] at h
    obtain ⟨_, _, ⟨_, _, ⟨_, _, ⟨_, _, ⟨_, _, ⟨_, _, ⟨_, _, ⟨_, _, hmk, htheme, rfl⟩, hdata, rfl⟩,
      houtput, rfl⟩, hmodes, rfl⟩, hdefault, rfl⟩, hlayers, rfl⟩, himports, rfl⟩, hminify, rfl⟩ := h
    cases hmk
    exact ⟨htheme, hdata, houtput, hmodes, hdefault, hlayers, himports, hminify⟩
  · rintro ⟨htheme, rfl, rfl, hmodes, hdefault, hlayers, himports, hminify⟩
    rw [htheme, hmodes, hdefault, hlayers, himports, hminify]
    rfl

theorem Draft.sound_of_draftOf {fields : Datum.Pairs} {dataDir outputDir : Checked Path}
    {draft : Draft} (h : draftOf fields dataDir outputDir = .ok draft) : draft.Sound := by
  obtain ⟨htheme, _, _, hmodes, _, hlayers, _, _⟩ := draftOf_eq_ok_iff.mp h
  have hgiven {α : Type} {name : String} {read : Datum → Checked α} {value : α}
      (hvalue : Field.required fields name read = .ok value) :
      ∃ given, read given = .ok value := by
    have hread := Checked.within_eq_ok_iff.mp hvalue
    split at hread
    · exact ⟨_, hread⟩
    · cases hread
  obtain ⟨givenModes, hmodes⟩ := hgiven hmodes
  obtain ⟨givenLayers, hlayers⟩ := hgiven hlayers
  obtain ⟨hne, hnodup, hblank⟩ := modeList_spec hmodes
  have hchecked := layerList_spec hlayers
  exact ⟨hne, hnodup, hblank, fun layer hlayer => (hchecked layer hlayer).1,
    isFileSafe_of_optional (by decide) htheme, fun layer hlayer => (hchecked layer hlayer).2⟩

/-- A draft that keeps the rules on its layers. -/
theorem Draft.rest_eq_none_iff {draft : Draft} {repeated : List String} :
    Draft.brokenRule?.rest draft repeated = none ↔
      repeated = [] ∧ (∀ layer ∈ draft.layers, ∀ mode ∈ layer.mode, mode ∈ draft.modes) ∧
        "index" ∉ draft.layers.map (·.group) := by
  have hunknown : draft.unknownLayerMode? = none ↔
      ∀ layer ∈ draft.layers, ∀ mode ∈ layer.mode, mode ∈ draft.modes := by
    unfold unknownLayerMode?
    rw [List.findSome?_eq_none_iff]
    refine forall₂_congr fun layer _ => ?_
    cases layer.mode with
    | none => simp
    | some mode => simp
  rw [← hunknown]
  unfold Draft.brokenRule?.rest
  by_cases hrepeated : repeated = []
  · rw [if_neg (not_not.mpr hrepeated)]
    cases draft.unknownLayerMode? with
    | some rule => simp
    | none => simp [hrepeated]
  · simp [hrepeated]

theorem Draft.valid_of_settle {draft : Draft} {config : Config} (hsound : draft.Sound)
    (h : draft.settle = .ok config) : config.Valid := by
  unfold Draft.settle at h
  split at h
  · cases h
  · rename_i hbroken
    cases h
    have hkept : Draft.brokenRule?.rest draft (repeatedNames (draft.layers.map (·.name))) = none ∧
        draft.defaultMode.getD (draft.modes.headD "") ∈ draft.modes := by
      unfold Draft.brokenRule? at hbroken
      simp only at hbroken
      cases hdefault : draft.defaultMode with
      | none =>
        simp only [hdefault] at hbroken
        refine ⟨hbroken, ?_⟩
        cases hmodes : draft.modes with
        | nil => exact absurd hmodes hsound.modes_ne_nil
        | cons mode rest => exact List.mem_cons_self
      | some mode =>
        simp only [hdefault] at hbroken
        split at hbroken
        · rename_i hknown
          exact ⟨hbroken, by simpa using hknown⟩
        · cases hbroken
    obtain ⟨hrepeated, hmodes, hindex⟩ := Draft.rest_eq_none_iff.mp hkept.1
    exact ⟨hsound.modes_nodup, hsound.modes_not_blank, hkept.2,
      repeatedNames_eq_nil_iff.mp hrepeated, hsound.origins, hmodes, hindex⟩

theorem Draft.fileSafe_of_settle {draft : Draft} {config : Config} (hsound : draft.Sound)
    (h : draft.settle = .ok config) : config.FileSafe := by
  unfold Draft.settle at h
  split at h
  · cases h
  · cases h
    exact ⟨hsound.theme_safe, hsound.groups_safe⟩

/-! ## From wherever settings come -/

/-- Settings that come of a sound draft; where their directories lie does not matter. -/
inductive OfSoundDraft : Config → Prop where
  | draft {draft : Draft} {config : Config} (hsound : draft.Sound)
      (h : draft.settle = .ok config) : OfSoundDraft config
  | anchored {config : Config} (h : OfSoundDraft config) (base : Path) :
      OfSoundDraft (config.anchoredAt base)

theorem OfSoundDraft.valid {config : Config} (h : config.OfSoundDraft) : config.Valid := by
  induction h with
  | draft hsound h => exact Draft.valid_of_settle hsound h
  | anchored _ base ih =>
    exact ⟨ih.modes_nodup, ih.modes_not_blank, ih.default_mem, ih.names_nodup, ih.origins,
      ih.layer_modes, ih.index_free⟩

theorem OfSoundDraft.fileSafe {config : Config} (h : config.OfSoundDraft) : config.FileSafe := by
  induction h with
  | draft hsound h => exact Draft.fileSafe_of_settle hsound h
  | anchored _ base ih => exact ⟨ih.theme, ih.groups⟩

theorem ofSoundDraft_of_ofDatum {given : Datum} {config : Config} (h : ofDatum given = .ok config) :
    config.OfSoundDraft := by
  unfold ofDatum at h
  split at h
  · split at h
    · rename_i draft hdraft
      exact .draft (Draft.sound_of_draftOf hdraft) h
    · cases h
  · cases h

theorem ofSoundDraft_of_ofSettings {given : Datum} {base : Option Path} {config : Config}
    (h : ofSettings given base = .ok config) : config.OfSoundDraft := by
  unfold ofSettings at h
  split at h
  · cases h
  · rename_i config' hconfig
    have hsound := ofSoundDraft_of_ofDatum hconfig
    split at h
    · cases h
      exact hsound.anchored _
    · cases h
      exact hsound

theorem ofSoundDraft_of_ofFile {tree : FileTree} {path : Path} {config : Config}
    (h : ofFile tree path = .ok config) : config.OfSoundDraft := by
  unfold ofFile at h
  split at h
  · cases h
  · cases h
  · cases h
  · split at h
    · cases h
    · cases h
    · exact ofSoundDraft_of_ofSettings h
    · cases h

theorem ofSoundDraft_of_metadata {tree : FileTree} {dataDir : Path} {outputDir : Option Path}
    {theme : Option String} {config : Config}
    (h : Metadata.config tree dataDir outputDir theme = .ok config) : config.OfSoundDraft := by
  unfold Metadata.config at h
  simp only [bind, Except.bind] at h
  split at h
  · cases h
  · split at h
    · cases h
    · unfold Metadata.configOf at h
      split at h
      · cases h
      · simp only at h
        split at h
        · cases h
        · rename_i draft hdraft
          split at h
          · cases h
          · rename_i config' hsettle
            cases h
            exact .draft (Draft.sound_of_draftOf hdraft) hsettle

end Config

end DesignTokens
