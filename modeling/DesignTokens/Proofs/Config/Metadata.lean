import DesignTokens.Proofs.Config.Valid
import DesignTokens.Proofs.Json.Printer
import Mathlib.Data.List.TakeWhile
/-!
# Which settings metadata stand for

A list of token sets is translated in one pass and then validated like any other settings.  Here the
two are taken together: which settings a list of token sets stands for, told by the folders of the
sets alone, and which lists are refused.
-/

set_option autoImplicit false

namespace DesignTokens.Metadata

variable {set group folder name : String} {role : Role} {sets names : List String}
  {given : Option String}

/-! ## What token sets stand for -/

/-- The names below a folder, in the order in which the token sets name them. -/
inductive Below (folder : String) : List String → List String → Prop where
  | nil : Below folder [] []
  | inside (name : String) {sets names : List String} (h : Below folder sets names) :
      Below folder ((folder ++ name) :: sets) (name :: names)
  | outside {set : String} {sets names : List String} (hset : ∀ name, set ≠ folder ++ name)
      (h : Below folder sets names) : Below folder (set :: sets) names

/-- The folders whose sets have a group that is not the folder's own. -/
def folderGroups : List (String × String) :=
  [("brand-theme/", "theme"), ("color-modes/", "theme"), ("components/", "component"),
    ("layouts/", "layout")]

/-- The group of a token set: that of its folder, or else the part before the first slash, which is
all of a set without a slash. -/
inductive HasGroup (set : String) : String → Prop where
  | folder (folder group name : String) (hfolder : (folder, group) ∈ folderGroups)
      (hset : set = folder ++ name) : HasGroup set group
  | own (group : String) (hfolder : ∀ entry ∈ folderGroups, ∀ name, set ≠ entry.1 ++ name)
      (hgroup : '/' ∉ group.toList) (hset : set = group ∨ ∃ rest, set = group ++ "/" ++ rest) :
      HasGroup set group

/-- The theme: the given one, or else that of the first brand theme with a name, or else a plain
word. -/
inductive HasTheme (given : Option String) (sets : List String) : String → Prop where
  | given (theme : String) (hgiven : given = some theme) (hne : theme ≠ "") :
      HasTheme given sets theme
  | brand (before : List String) (theme : String) (after : List String)
      (hgiven : ∀ theme ∈ given, theme = "")
      (hbrands : Below "brand-theme/" sets (before ++ theme :: after))
      (hbefore : ∀ name ∈ before, name = "") (hne : theme ≠ "") : HasTheme given sets theme
  | word (brands : List String) (hgiven : ∀ theme ∈ given, theme = "")
      (hbrands : Below "brand-theme/" sets brands) (hnames : ∀ name ∈ brands, name = "") :
      HasTheme given sets "theme"

/-- The layer of a token set. -/
structure IsLayerOf (set : String) (layer : LayerSource) : Prop where
  name : layer.name = set
  source : layer.source = some (set ++ ".json")
  data : layer.data = none
  mode : ∀ mode, layer.mode = some mode ↔ set = "color-modes/" ++ mode
  emit : layer.emit = false ↔
    (∃ mode, set = "color-modes/" ++ mode) ∨ ∃ theme, set = "brand-theme/" ++ theme
  group : HasGroup set layer.group
  skippable : layer.skippable = false

/-- The settings of token sets. -/
structure Describes (given : Option String) (sets : List String) (config : Config) : Prop where
  layers : List.Forall₂ IsLayerOf sets config.layers
  modes : Below "color-modes/" sets config.modes
  default : config.modes.head? = some config.defaultMode
  theme : HasTheme given sets config.theme
  imports : config.indexImports = []
  minify : config.minify = false

/-- Token sets that stand for no settings. -/
inductive Refused (given : Option String) (sets : List String) : Prop where
  | noMode (h : ∀ mode, "color-modes/" ++ mode ∉ sets)
  | repeated (h : ¬ sets.Nodup)
  | blankMode (mode : String) (hset : "color-modes/" ++ mode ∈ sets)
      (hblank : Text.allBlank mode = true)
  | unsafeTheme (theme : String) (htheme : HasTheme given sets theme)
      (hrefused : Field.isFileSafe theme = false)
  | unsafeGroup (set group : String) (hset : set ∈ sets) (hgroup : HasGroup set group)
      (hrefused : Field.isFileSafe group = false)
  | indexGroup (set : String) (hset : set ∈ sets) (hgroup : HasGroup set "index")

/-! ## Folders -/

theorem isPrefixOf_iff : folder.toList.isPrefixOf set.toList = true ↔
    ∃ name, set = folder ++ name := by
  rw [List.isPrefixOf_iff_prefix]
  constructor
  · intro ⟨name, hname⟩
    refine ⟨String.ofList name, String.toList_inj.mp ?_⟩
    rw [String.toList_append, String.toList_ofList, hname]
  · intro ⟨name, hname⟩
    rw [hname, String.toList_append]
    exact List.prefix_append _ _

/-- No set lies in two of the folders. -/
theorem roleOf_append (h : (folder, role) ∈ folders) (name : String) :
    roleOf (folder ++ name) = role := by
  unfold folders at h
  simp only [List.mem_cons, List.not_mem_nil, or_false, Prod.mk.injEq] at h
  rcases h with ⟨rfl, rfl⟩ | ⟨rfl, rfl⟩ | ⟨rfl, rfl⟩ | ⟨rfl, rfl⟩ <;>
    simp [roleOf, folders, String.toList_append]

theorem roleOf_eq_other (h : ∀ entry ∈ folders, ∀ name, set ≠ entry.1 ++ name) :
    roleOf set = .other := by
  have hnone : (folders.find? fun folder => folder.1.toList.isPrefixOf set.toList) = none := by
    rw [List.find?_eq_none]
    intro entry hentry hprefix
    obtain ⟨name, hname⟩ := isPrefixOf_iff.mp hprefix
    exact h entry hentry name hname
  unfold roleOf
  rw [hnone]

/-- A set lies in a folder with a role, or in none. -/
theorem roleOf_cases (set : String) :
    (∃ folder name, (folder, roleOf set) ∈ folders ∧ set = folder ++ name) ∨
      roleOf set = .other ∧ ∀ entry ∈ folders, ∀ name, set ≠ entry.1 ++ name := by
  by_cases h : ∀ entry ∈ folders, ∀ name, set ≠ entry.1 ++ name
  · exact .inr ⟨roleOf_eq_other h, h⟩
  · simp only [not_forall, not_not] at h
    obtain ⟨⟨folder, role⟩, hfolder, name, rfl⟩ := h
    exact .inl ⟨folder, name, (roleOf_append hfolder name).symm ▸ hfolder, rfl⟩

/-- Every role has one folder, so it tells where a set lies. -/
theorem roleOf_eq_iff (h : (folder, role) ∈ folders) :
    roleOf set = role ↔ ∃ name, set = folder ++ name := by
  have hunique : ∀ entry ∈ folders, ∀ other ∈ folders, other.2 = entry.2 → other.1 = entry.1 := by
    decide
  have hproper : ∀ entry ∈ folders, entry.2 ≠ .other := by decide
  constructor
  · intro hrole
    rcases roleOf_cases set with ⟨other, name, hother, hset⟩ | ⟨hnone, _⟩
    · rw [hrole] at hother
      have hfolder : other = folder := hunique _ h _ hother rfl
      exact ⟨name, hfolder ▸ hset⟩
    · exact absurd (hrole.symm.trans hnone) (hproper _ h)
  · intro ⟨name, hname⟩
    rw [hname]
    exact roleOf_append h name

theorem roleOf_eq_colorMode_iff :
    roleOf set = .colorMode ↔ ∃ name, set = "color-modes/" ++ name :=
  roleOf_eq_iff (by decide)

theorem roleOf_eq_brandTheme_iff :
    roleOf set = .brandTheme ↔ ∃ name, set = "brand-theme/" ++ name :=
  roleOf_eq_iff (by decide)

/-- What is left of a set without its folder. -/
theorem remainderOf_append {front : String} (hfront : '/' ∉ front.toList) (name : String) :
    remainderOf (front ++ "/" ++ name) = name := by
  unfold remainderOf
  have hlist : (front ++ "/" ++ name).toList = front.toList ++ '/' :: name.toList := by
    simp [String.toList_append]
  rw [hlist, Lists.dropWhile_append_eq, List.drop_one, List.tail_cons, String.ofList_toList]
  · intro c hc
    rw [bne_iff_ne]
    exact ne_of_mem_of_not_mem hc hfront
  · intro c hc
    cases hc
    rfl

theorem remainderOf_colorMode (name : String) : remainderOf ("color-modes/" ++ name) = name :=
  remainderOf_append (show '/' ∉ "color-modes".toList by decide) name

theorem remainderOf_brandTheme (name : String) : remainderOf ("brand-theme/" ++ name) = name :=
  remainderOf_append (show '/' ∉ "brand-theme".toList by decide) name

/-- The part of a set before its first slash. -/
theorem folderOf_eq_iff : folderOf set = group ↔
    '/' ∉ group.toList ∧ (set = group ∨ ∃ rest, set = group ++ "/" ++ rest) := by
  have hsplit : set.toList = (folderOf set).toList ++ set.toList.dropWhile (· != '/') := by
    rw [folderOf, String.toList_ofList, List.takeWhile_append_dropWhile]
  have hfree : '/' ∉ (folderOf set).toList := by
    rw [folderOf, String.toList_ofList]
    intro hmem
    have hkept := List.all_eq_true.mp List.all_takeWhile _ hmem
    exact absurd rfl (bne_iff_ne.mp hkept)
  constructor
  · intro hgroup
    rw [← hgroup]
    refine ⟨hfree, ?_⟩
    cases hrest : set.toList.dropWhile (· != '/') with
    | nil =>
      rw [hrest, List.append_nil] at hsplit
      exact .inl (String.toList_inj.mp hsplit)
    | cons c rest =>
      have hslash := List.head?_dropWhile_not (· != '/') set.toList
      rw [hrest, List.head?_cons] at hslash
      have hc : c = '/' := by simpa using hslash
      refine .inr ⟨String.ofList rest, String.toList_inj.mp ?_⟩
      rw [hsplit, hrest, hc]
      simp [String.toList_append]
  · intro ⟨hgroup, hset⟩
    have hkept : ∀ c ∈ group.toList, (c != '/') = true := by
      intro c hc
      exact bne_iff_ne.mpr (ne_of_mem_of_not_mem hc hgroup)
    apply String.toList_inj.mp
    rw [folderOf, String.toList_ofList]
    rcases hset with rfl | ⟨rest, rfl⟩
    · exact List.takeWhile_eq_self_iff.mpr hkept
    · have hlist : (group ++ "/" ++ rest).toList = group.toList ++ '/' :: rest.toList := by
        simp [String.toList_append]
      rw [hlist, List.takeWhile_append_of_pos hkept, List.takeWhile_cons_of_neg (by decide),
        List.append_nil]

/-! ## Groups -/

/-- The group of the sets with a role, unless they have their own. -/
def groupOfRole : Role → Option String
  | .brandTheme | .colorMode => some "theme"
  | .component => some "component"
  | .layout => some "layout"
  | .other => none

/-- The group of a token set, by its role. -/
def groupOf (set : String) : String :=
  (groupOfRole (roleOf set)).getD (folderOf set)

theorem hasGroup_iff : HasGroup set group ↔ groupOf set = group := by
  have hroles : ∀ known ∈ folderGroups, ∃ entry ∈ folders,
      entry.1 = known.1 ∧ groupOfRole entry.2 = some known.2 := by
    decide
  have hgroups : ∀ entry ∈ folders, ∃ known ∈ folderGroups,
      entry.1 = known.1 ∧ groupOfRole entry.2 = some known.2 := by
    decide
  unfold groupOf
  constructor
  · intro h
    cases h with
    | folder folder group name hfolder hset =>
      obtain ⟨⟨_, role⟩, hentry, rfl, hgroup⟩ := hroles _ hfolder
      rw [hset, roleOf_append hentry, hgroup, Option.getD_some]
    | own group hfolder hgroup hset =>
      have hrole : roleOf set = .other := by
        apply roleOf_eq_other
        intro entry hentry
        obtain ⟨known, hknown, hsame, _⟩ := hgroups entry hentry
        rw [hsame]
        exact hfolder known hknown
      rw [hrole]
      exact folderOf_eq_iff.mpr ⟨hgroup, hset⟩
  · intro h
    rcases roleOf_cases set with ⟨folder, name, hfolder, hset⟩ | ⟨hrole, hfolders⟩
    · obtain ⟨⟨_, found⟩, hknown, rfl, hgroup⟩ := hgroups _ hfolder
      rw [hgroup, Option.getD_some] at h
      exact .folder folder group name (h ▸ hknown) hset
    · rw [hrole] at h
      obtain ⟨hgroup, hset⟩ := folderOf_eq_iff.mp h
      refine .own group ?_ hgroup hset
      intro known hknown
      obtain ⟨entry, hentry, hsame, _⟩ := hroles known hknown
      rw [← hsame]
      exact hfolders entry hentry

/-! ## Modes and theme -/

/-- The names below a folder are what the translation gathers for its role. -/
theorem below_filter (h : (folder, role) ∈ folders)
    (hremainder : ∀ name, remainderOf (folder ++ name) = name) (sets : List String) :
    Below folder sets ((sets.filter fun set => roleOf set == role).map remainderOf) := by
  induction sets with
  | nil => exact .nil
  | cons set sets ih =>
    by_cases hrole : roleOf set = role
    · obtain ⟨name, rfl⟩ := (roleOf_eq_iff h).mp hrole
      rw [List.filter_cons_of_pos (by simpa using hrole), List.map_cons, hremainder]
      exact .inside name ih
    · rw [List.filter_cons_of_neg (by simpa using hrole)]
      refine .outside ?_ ih
      intro name hname
      exact hrole ((roleOf_eq_iff h).mpr ⟨name, hname⟩)

theorem below_modesOf (sets : List String) : Below "color-modes/" sets (modesOf sets) :=
  below_filter (by decide) remainderOf_colorMode sets

/-- The names below a folder are told by the sets. -/
theorem Below.unique {others : List String} (h : Below folder sets names)
    (hother : Below folder sets others) : names = others := by
  induction h generalizing others with
  | nil =>
    cases hother
    rfl
  | inside name _ ih =>
    generalize hset : folder ++ name = set at hother
    cases hother with
    | inside other hrest =>
      rw [String.append_right_inj] at hset
      rw [hset, ih hrest]
    | outside hnone _ => exact absurd hset.symm (hnone name)
  | outside hnone _ ih =>
    cases hother with
    | inside other _ => exact absurd rfl (hnone other)
    | outside _ hrest => exact ih hrest

theorem Below.mem_iff (h : Below folder sets names) : name ∈ names ↔ folder ++ name ∈ sets := by
  induction h with
  | nil => simp
  | inside other _ ih => simp [ih, String.append_right_inj]
  | outside hnone _ ih =>
    rw [List.mem_cons, ih]
    exact (or_iff_right (hnone name).symm).symm

/-- The sets below a folder are distinct exactly if their names are. -/
theorem Below.nodup (h : Below folder sets names) (hsets : sets.Nodup) : names.Nodup := by
  induction h with
  | nil => exact .nil
  | inside other hrest ih =>
    rw [List.nodup_cons] at hsets ⊢
    exact ⟨fun hmem => hsets.1 (hrest.mem_iff.mp hmem), ih hsets.2⟩
  | outside _ _ ih => exact ih (List.nodup_cons.mp hsets).2

/-- The first name of a list that is not empty. -/
theorem find?_eq_some_iff {theme : String} : names.find? (· ≠ "") = some theme ↔
    ∃ before after, names = before ++ theme :: after ∧ (∀ name ∈ before, name = "") ∧ theme ≠ "" := by
  rw [List.find?_eq_some_iff_append]
  simp only [ne_eq, decide_not, Bool.not_eq_true', decide_eq_false_iff_not, Bool.not_not,
    decide_eq_true_eq]
  constructor
  · intro ⟨hne, before, after, hnames, hbefore⟩
    exact ⟨before, after, hnames, hbefore, hne⟩
  · intro ⟨before, after, hnames, hbefore, hne⟩
    exact ⟨hne, before, after, hnames, hbefore⟩

theorem find?_eq_none_iff : names.find? (· ≠ "") = none ↔ ∀ name ∈ names, name = "" := by
  rw [List.find?_eq_none]
  simp

theorem hasTheme_iff {theme : String} : HasTheme given sets theme ↔ themeOf given sets = theme := by
  have hknown : ("brand-theme/", Role.brandTheme) ∈ folders := by decide
  have hbelow := below_filter hknown remainderOf_brandTheme sets
  unfold themeOf
  generalize (sets.filter fun set => roleOf set == .brandTheme).map remainderOf = brands at hbelow
  have hgiven (hblank : ∀ theme ∈ given, theme = "") : given.toList.find? (· ≠ "") = none := by
    rw [find?_eq_none_iff]
    simpa using hblank
  simp only [List.find?_append]
  constructor
  · intro h
    cases h with
    | given theme hsome hne => simp [hsome, hne]
    | brand before theme after hblank hbrands hbefore hne =>
      have hfound := find?_eq_some_iff.mpr ⟨before, after, hbelow.unique hbrands, hbefore, hne⟩
      rw [hgiven hblank, Option.none_or, hfound, Option.getD_some]
    | word others hblank hbrands hnames =>
      rw [← hbelow.unique hbrands] at hnames
      rw [hgiven hblank, find?_eq_none_iff.mpr hnames]
      rfl
  · intro h
    cases hfirst : given.toList.find? (· ≠ "") with
    | some first =>
      rw [hfirst, Option.some_or, Option.getD_some] at h
      have hmem := List.mem_of_find?_eq_some hfirst
      rw [h, Option.mem_toList] at hmem
      exact .given theme hmem (by simpa [h] using List.find?_some hfirst)
    | none =>
      have hblank : ∀ theme ∈ given, theme = "" := by
        simpa using find?_eq_none_iff.mp hfirst
      rw [hfirst, Option.none_or] at h
      cases hbrand : brands.find? (· ≠ "") with
      | some brand =>
        rw [hbrand, Option.getD_some] at h
        obtain ⟨before, after, hnames, hbefore, hne⟩ := find?_eq_some_iff.mp hbrand
        rw [h] at hnames hne
        exact .brand before theme after hblank (hnames ▸ hbelow) hbefore hne
      | none =>
        rw [hbrand, Option.getD_none] at h
        exact h ▸ .word brands hblank hbelow (find?_eq_none_iff.mp hbrand)

/-! ## Layers -/

/-- The layer of a token set, by its role. -/
def layerOf (set : String) : LayerSource where
  name := set
  source := some (set ++ ".json")
  data := none
  mode := if roleOf set = .colorMode then some (remainderOf set) else none
  group := groupOf set
  emit := !decide (roleOf set = .colorMode ∨ roleOf set = .brandTheme)
  skippable := false

theorem isLayerOf_layerOf (set : String) : IsLayerOf set (layerOf set) where
  name := rfl
  source := rfl
  data := rfl
  mode := by
    intro mode
    unfold layerOf
    simp only
    constructor
    · intro h
      split at h
      · rename_i hrole
        obtain ⟨name, rfl⟩ := roleOf_eq_colorMode_iff.mp hrole
        rw [remainderOf_colorMode, Option.some.injEq] at h
        rw [h]
      · cases h
    · intro hset
      rw [if_pos (roleOf_eq_colorMode_iff.mpr ⟨mode, hset⟩), hset, remainderOf_colorMode]
  emit := by
    unfold layerOf
    rw [← roleOf_eq_colorMode_iff, ← roleOf_eq_brandTheme_iff, Bool.not_eq_false',
      decide_eq_true_eq]
  group := hasGroup_iff.mpr rfl
  skippable := rfl

theorem nonEmptyText_eq_ok_iff {s t : String} :
    Field.nonEmptyText (.str s) = .ok t ↔ s ≠ "" ∧ s = t := by
  unfold Field.nonEmptyText Field.text
  simp only
  split
  · rename_i hempty
    exact iff_of_false nofun fun h => h.1 hempty
  · rename_i hne
    rw [Except.ok.injEq]
    exact (and_iff_right hne).symm

/-- What is written of a layer: a mode and whether it is emitted only where they are not the default
ones. -/
theorem layerFields_eq (set : String) : layerFields set = Datum.Pairs.ofFields
    ([("name", .str set), ("source", .str (set ++ ".json"))] ++
      (layerOf set).mode.toList.map (fun mode => ("mode", .str mode)) ++
      [("group", .str (groupOf set))] ++
      if (layerOf set).emit then [] else [("emit", .bool false)]) := by
  unfold layerFields layerOf groupOf
  cases roleOf set with
  | brandTheme => rfl
  | colorMode => rfl
  | component => rfl
  | layout => rfl
  | other => rfl

/-- The translation of a token set passes its check exactly if its group can be a file's name. -/
theorem ofDatum_layerFields_iff {layer : LayerSource} :
    LayerSource.ofDatum (.map (layerFields set)) = .ok layer ↔
      Field.isFileSafe (groupOf set) = true ∧ layerOf set = layer := by
  -- The empty set has an empty group, so the check of its name finds nothing new.
  have hne : Field.isFileSafe (groupOf set) = true → set ≠ "" := by
    intro hsafe hempty
    rw [hempty] at hsafe
    revert hsafe
    decide
  obtain ⟨name, source, data, mode, group, emit, skippable⟩ := layer
  rw [LayerSource.ofDatum, Config.layerSource_eq_ok_iff, layerFields_eq]
  have hlayer : layerOf set = ⟨set, some (set ++ ".json"), none, (layerOf set).mode, groupOf set,
    (layerOf set).emit, false⟩ := rfl
  rw [hlayer]
  generalize (layerOf set).mode = tag
  generalize (layerOf set).emit = shown
  apply Iff.trans (b := (set ≠ "" ∧ set = name) ∧ some (set ++ ".json") = source ∧ none = data ∧
    tag = mode ∧ (Field.isFileSafe (groupOf set) = true ∧ groupOf set = group) ∧ emit = shown ∧
      skippable = false ∧ (source.isSome = true ∨ data.isSome = true))
  · cases tag <;> cases shown <;>
      simp [Datum.Pairs.ofFields, Field.required, Field.optional, Datum.Pairs.get?,
        Checked.within_eq_ok_iff, Field.orNull, Field.truth, Field.text, Except.map,
        Field.fileSafeText_eq_ok_iff, nonEmptyText_eq_ok_iff, LayerSource.HasOrigin]
  · rw [LayerSource.mk.injEq]
    constructor
    · rintro ⟨⟨_, hname⟩, hsource, hdata, hmode, ⟨hsafe, hgroup⟩, hemit, hskippable, _⟩
      exact ⟨hsafe, hname, hsource, hdata, hmode, hgroup, hemit.symm, hskippable.symm⟩
    · rintro ⟨hsafe, hname, hsource, hdata, hmode, hgroup, hemit, hskippable⟩
      exact ⟨⟨hne hsafe, hname⟩, hsource, hdata, hmode, ⟨hsafe, hgroup⟩, hemit.symm,
        hskippable.symm, .inl (hsource ▸ rfl)⟩

/-! ## From fields to settings -/

/-- The layers of token sets. -/
theorem layerList_eq_ok_iff {layers : List LayerSource} :
    Config.layerList (.list (sets.map fun set => .map (layerFields set))) = .ok layers ↔
      sets ≠ [] ∧ (∀ set ∈ sets, Field.isFileSafe (groupOf set) = true) ∧
        layers = sets.map layerOf := by
  cases sets with
  | nil => exact iff_of_false nofun fun h => h.1 rfl
  | cons set rest =>
    have heach : Config.layerList (.list ((set :: rest).map fun set => .map (layerFields set))) =
        Checked.each LayerSource.ofDatum 0
          ((set :: rest).map fun set => .map (layerFields set)) := rfl
    rw [heach, Checked.each_eq_ok_iff, List.forall₂_map_left_iff]
    simp only [ofDatum_layerFields_iff, Lists.forall₂_and_eq_iff]
    exact (and_iff_right (List.cons_ne_nil _ _)).symm

/-- Texts are read as they are. -/
theorem nonEmptyTexts_of_ne_nil (h : names ≠ []) :
    Field.nonEmptyTexts (.list (names.map .str)) = .ok names := by
  cases names with
  | nil => exact absurd rfl h
  | cons name rest =>
    have heach : Field.nonEmptyTexts (.list ((name :: rest).map .str)) =
        Checked.each Field.text 0 ((name :: rest).map .str) := rfl
    rw [heach, Checked.each_eq_ok_iff, List.forall₂_map_left_iff, List.forall₂_same]
    intro text _
    rfl

/-- Modes that are given as texts. -/
theorem modeList_eq_ok_iff {modes : List String} :
    Config.modeList (.list (names.map .str)) = .ok modes ↔
      (names ≠ [] ∧ names.Nodup ∧ ∀ mode ∈ names, Text.allBlank mode = false) ∧ modes = names := by
  have hread (h : names ≠ []) : Config.modeList (.list (names.map .str)) = .ok modes →
      modes = names := by
    unfold Config.modeList
    rw [nonEmptyTexts_of_ne_nil h]
    simp only
    intro h
    split at h
    · cases h
    · split at h
      · cases h
      · exact (Except.ok.inj h).symm
  constructor
  · intro h
    have hspec := Config.modeList_spec h
    have hne : names ≠ [] := by
      intro hnil
      rw [hnil] at h
      cases h
    have hsame := hread hne h
    rw [hsame] at hspec
    exact ⟨hspec, hsame⟩
  · intro ⟨⟨hne, hnodup, hblank⟩, hsame⟩
    have hnone : names.any Text.allBlank = false := by simpa using hblank
    rw [hsame]
    unfold Config.modeList
    rw [nonEmptyTexts_of_ne_nil hne]
    simp [hnone, Lists.eraseDups_of_nodup hnodup]

/-- Token sets that stand for settings, by what the translation makes of them. -/
structure Accepted (given : Option String) (sets : List String) : Prop where
  modes_ne_nil : modesOf sets ≠ []
  sets_nodup : sets.Nodup
  modes_not_blank : ∀ mode ∈ modesOf sets, Text.allBlank mode = false
  theme_safe : Field.isFileSafe (themeOf given sets) = true
  groups_safe : ∀ set ∈ sets, Field.isFileSafe (groupOf set) = true
  index_free : ∀ set ∈ sets, groupOf set ≠ "index"

/-- The settings that the translation makes of token sets. -/
def settingsOf (given : Option String) (sets : List String) (dataDir outputDir : Path) : Config where
  theme := themeOf given sets
  dataDir := dataDir
  outputDir := outputDir
  modes := modesOf sets
  defaultMode := (modesOf sets).headD ""
  layers := sets.map layerOf
  indexImports := []
  minify := false

/-- What is read of the translation before it is checked as a whole. -/
def draftFor (given : Option String) (sets : List String) (dataDir outputDir : Path) :
    Config.Draft where
  theme := themeOf given sets
  dataDir := dataDir
  outputDir := outputDir
  modes := modesOf sets
  defaultMode := none
  layers := sets.map layerOf
  indexImports := []
  minify := false

theorem draftOf_eq_ok_iff {dataDir outputDir : Path} {draft : Config.Draft} :
    Config.draftOf (Datum.Pairs.ofFields
        [("theme", .str (themeOf given sets)), ("modes", .list ((modesOf sets).map .str)),
          ("layers", .list (sets.map fun set => .map (layerFields set)))])
        (.ok dataDir) (.ok outputDir) = .ok draft ↔
      (Field.isFileSafe (themeOf given sets) = true ∧
        (modesOf sets ≠ [] ∧ (modesOf sets).Nodup ∧
          ∀ mode ∈ modesOf sets, Text.allBlank mode = false) ∧
        sets ≠ [] ∧ ∀ set ∈ sets, Field.isFileSafe (groupOf set) = true) ∧
      draft = draftFor given sets dataDir outputDir := by
  obtain ⟨theme, data, output, modes, default, layers, imports, minify⟩ := draft
  rw [Config.draftOf_eq_ok_iff]
  unfold draftFor
  simp only [Datum.Pairs.ofFields, List.map_cons, List.map_nil, Field.required, Field.optional,
    Datum.Pairs.get?, Checked.within_eq_ok_iff, if_true, String.reduceEq, if_false,
    Field.fileSafeText_eq_ok_iff, modeList_eq_ok_iff, layerList_eq_ok_iff, Except.ok.injEq,
    Config.Draft.mk.injEq]
  constructor
  · intro ⟨⟨hsafe, htheme⟩, hdata, houtput, ⟨hmodes, hnames⟩, hdefault, ⟨hsets, hgroups, hlayers⟩,
      himports, hminify⟩
    exact ⟨⟨hsafe, hmodes, hsets, hgroups⟩, htheme.symm, hdata.symm, houtput.symm, hnames,
      hdefault.symm, hlayers, himports.symm, hminify.symm⟩
  · intro ⟨⟨hsafe, hmodes, hsets, hgroups⟩, htheme, hdata, houtput, hnames, hdefault, hlayers,
      himports, hminify⟩
    exact ⟨⟨hsafe, htheme.symm⟩, hdata.symm, houtput.symm, ⟨hmodes, hnames⟩, hdefault.symm,
      ⟨hsets, hgroups, hlayers⟩, himports.symm, hminify.symm⟩

/-- The layers of token sets are tagged with modes that the sets name. -/
theorem mode_mem_of_layerOf (hset : set ∈ sets) {mode : String} (h : mode ∈ (layerOf set).mode) :
    mode ∈ modesOf sets := by
  have hname := ((isLayerOf_layerOf set).mode mode).mp h
  exact (below_modesOf sets).mem_iff.mpr (hname ▸ hset)

theorem settle_draftFor_iff {dataDir outputDir : Path} {config : Config} :
    (draftFor given sets dataDir outputDir).settle = .ok config ↔
      (sets.Nodup ∧ ∀ set ∈ sets, groupOf set ≠ "index") ∧
        config = settingsOf given sets dataDir outputDir := by
  have hrule : (draftFor given sets dataDir outputDir).brokenRule? = none ↔
      sets.Nodup ∧ ∀ set ∈ sets, groupOf set ≠ "index" := by
    have hrest : (draftFor given sets dataDir outputDir).brokenRule? =
        Config.Draft.brokenRule?.rest (draftFor given sets dataDir outputDir)
          (Config.repeatedNames ((sets.map layerOf).map (·.name))) := rfl
    have hnames : (sets.map layerOf).map (·.name) = sets := by
      rw [List.map_map]
      exact List.map_id sets
    have hgroups : "index" ∉ (sets.map layerOf).map (·.group) ↔
        ∀ set ∈ sets, groupOf set ≠ "index" := by
      simp [layerOf]
    rw [hrest, hnames, Config.Draft.rest_eq_none_iff, Config.repeatedNames_eq_nil_iff]
    unfold draftFor
    simp only
    rw [hgroups, and_congr_right_iff, and_iff_right_iff_imp]
    intro _ _ layer hlayer mode hmode
    obtain ⟨set, hset, rfl⟩ := List.mem_map.mp hlayer
    exact mode_mem_of_layerOf hset hmode
  unfold Config.Draft.settle
  rw [← hrule]
  cases (draftFor given sets dataDir outputDir).brokenRule? with
  | some rule => exact iff_of_false nofun fun h => nomatch h.1
  | none =>
    simp only [Except.ok.injEq, true_and]
    exact eq_comm

/-- Token sets stand for settings if and only if these are accepted, and then for these. -/
theorem configOf_eq_ok_iff {dataDir outputDir : Path} {config : Config} :
    configOf sets dataDir outputDir given = .ok config ↔
      Accepted given sets ∧ config = settingsOf given sets dataDir outputDir := by
  unfold configOf
  by_cases hmodes : modesOf sets = []
  · rw [if_pos (List.isEmpty_iff.mpr hmodes)]
    exact iff_of_false nofun fun h => h.1.modes_ne_nil hmodes
  · rw [if_neg (by simpa using hmodes)]
    simp only
    constructor
    · intro h
      split at h
      · cases h
      · rename_i draft hdraft
        split at h
        · cases h
        · rename_i settled hsettle
          obtain ⟨⟨htheme, ⟨_, _, hblank⟩, _, hgroups⟩, rfl⟩ := draftOf_eq_ok_iff.mp hdraft
          obtain ⟨⟨hnodup, hindex⟩, hsettled⟩ := settle_draftFor_iff.mp hsettle
          exact ⟨⟨hmodes, hnodup, hblank, htheme, hgroups, hindex⟩,
            (Except.ok.inj h).symm.trans hsettled⟩
    · intro ⟨haccepted, hconfig⟩
      have hsets : sets ≠ [] := by
        intro hnil
        rw [hnil] at hmodes
        exact hmodes rfl
      have hfields := @draftOf_eq_ok_iff sets given dataDir outputDir
        (draftFor given sets dataDir outputDir)
      have hdraft := hfields.mpr ⟨⟨haccepted.theme_safe, ⟨haccepted.modes_ne_nil,
        (below_modesOf sets).nodup haccepted.sets_nodup, haccepted.modes_not_blank⟩, hsets,
          haccepted.groups_safe⟩, rfl⟩
      have hsettle := settle_draftFor_iff.mpr ⟨⟨haccepted.sets_nodup, haccepted.index_free⟩,
        hconfig⟩
      rw [hdraft]
      simp only [hsettle]

/-- Token sets that do not stand for settings are refused, and nothing worse happens to them. -/
theorem configOf_cases (sets : List String) (dataDir outputDir : Path) (given : Option String) :
    (∃ config, configOf sets dataDir outputDir given = .ok config) ∨
      ∃ fault, configOf sets dataDir outputDir given = .error (.error (.config fault)) := by
  unfold configOf
  split
  · exact .inr ⟨_, rfl⟩
  · simp only
    split
    · exact .inr ⟨_, rfl⟩
    · split
      · exact .inr ⟨_, rfl⟩
      · exact .inl ⟨_, rfl⟩

/-! ## What is refused -/

theorem describes_settingsOf {dataDir outputDir : Path} (h : Accepted given sets) :
    Describes given sets (settingsOf given sets dataDir outputDir) where
  layers := by
    unfold settingsOf
    rw [List.forall₂_map_right_iff, List.forall₂_same]
    intro set _
    exact isLayerOf_layerOf set
  modes := below_modesOf sets
  default := by
    unfold settingsOf
    obtain ⟨mode, rest, hmodes⟩ := List.exists_cons_of_ne_nil h.modes_ne_nil
    rw [hmodes]
    rfl
  theme := hasTheme_iff.mpr rfl
  imports := rfl
  minify := rfl

/-- The causes of a refusal are just what the checks look for. -/
theorem accepted_iff : Accepted given sets ↔ ¬ Refused given sets := by
  have hmem {mode : String} : mode ∈ modesOf sets ↔ "color-modes/" ++ mode ∈ sets :=
    (below_modesOf sets).mem_iff
  constructor
  · intro h hrefused
    cases hrefused with
    | noMode hnone =>
      obtain ⟨mode, rest, hmodes⟩ := List.exists_cons_of_ne_nil h.modes_ne_nil
      exact hnone mode (hmem.mp (hmodes ▸ List.mem_cons_self))
    | repeated hrepeated => exact hrepeated h.sets_nodup
    | blankMode mode hset hblank =>
      exact absurd hblank (ne_true_of_eq_false (h.modes_not_blank mode (hmem.mpr hset)))
    | unsafeTheme theme htheme hrefused =>
      rw [← hasTheme_iff.mp htheme, h.theme_safe] at hrefused
      cases hrefused
    | unsafeGroup set group hset hgroup hrefused =>
      rw [← hasGroup_iff.mp hgroup, h.groups_safe set hset] at hrefused
      cases hrefused
    | indexGroup set hset hgroup => exact h.index_free set hset (hasGroup_iff.mp hgroup)
  · intro h
    constructor
    case modes_ne_nil =>
      intro hnil
      refine h (.noMode fun mode hset => ?_)
      rw [← hmem, hnil] at hset
      cases hset
    case sets_nodup =>
      by_contra hrepeated
      exact h (.repeated hrepeated)
    case modes_not_blank =>
      intro mode hmode
      by_contra hblank
      exact h (.blankMode mode (hmem.mp hmode) (eq_true_of_ne_false hblank))
    case theme_safe =>
      by_contra hrefused
      exact h (.unsafeTheme _ (hasTheme_iff.mpr rfl) (eq_false_of_ne_true hrefused))
    case groups_safe =>
      intro set hset
      by_contra hrefused
      exact h (.unsafeGroup set _ hset (hasGroup_iff.mpr rfl) (eq_false_of_ne_true hrefused))
    case index_free =>
      intro set hset hindex
      exact h (.indexGroup set hset (hasGroup_iff.mpr hindex))

/-! ## From a metadata file -/

theorem mapM_setNames (sets : List String) : (sets.map Json.str).mapM (fun
    | .str set => .ok set
    | _ => .error (.breakdown .setNameNotText) : Json → Except Failure String) = .ok sets := by
  induction sets with
  | nil => rfl
  | cons set rest ih =>
    rw [List.map_cons, List.mapM_cons, ih]
    rfl

theorem tokenSets_eq_ok {fields : Json.Fields} (hne : sets ≠ [])
    (horder : OrderedMap.get? fields "tokenSetOrder" = some (.arr (sets.map .str))) :
    tokenSets (.obj fields) = .ok sets := by
  unfold tokenSets
  simp only
  rw [horder]
  cases sets with
  | nil => exact absurd rfl hne
  | cons set rest => exact mapM_setNames (set :: rest)

/-- Metadata that name their token sets by texts, one at least, stand for the settings that the sets
describe, unless they are refused for one of the causes, and then with an error of the settings. -/
theorem config_describes_tokenSets (tree : FileTree) (dataDir : Path) (outputDir : Option Path)
    (given : Option String) (fields : Json.Fields) (sets : List String)
    (hdocument : readDocument tree dataDir = .ok (.obj fields))
    (horder : OrderedMap.get? fields "tokenSetOrder" = some (.arr (sets.map .str)))
    (hne : sets ≠ []) :
    (Refused given sets ↔
        ∃ fault, config tree dataDir outputDir given = .error (.error (.config fault))) ∧
      (¬ Refused given sets → ∃ settings, config tree dataDir outputDir given = .ok settings ∧
        Describes given sets settings ∧ settings.dataDir = dataDir ∧
        settings.outputDir = outputDir.getD (dataDir.parent.join (Path.ofString "css-vars"))) := by
  have hconfig : config tree dataDir outputDir given = configOf sets dataDir
      (outputDir.getD (dataDir.parent.join (Path.ofString "css-vars"))) given := by
    unfold config
    rw [hdocument]
    simp only [bind, Except.bind]
    rw [tokenSets_eq_ok hne horder]
  rw [hconfig]
  refine ⟨⟨?_, ?_⟩, ?_⟩
  · intro hrefused
    rcases configOf_cases sets dataDir _ given with ⟨settings, hsettings⟩ | hfault
    · have haccepted := (configOf_eq_ok_iff.mp hsettings).1
      exact absurd hrefused (accepted_iff.mp haccepted)
    · exact hfault
  · intro ⟨fault, hfault⟩
    by_contra hkept
    rw [configOf_eq_ok_iff.mpr ⟨accepted_iff.mpr hkept, rfl⟩] at hfault
    cases hfault
  · intro hkept
    have haccepted := accepted_iff.mpr hkept
    exact ⟨_, configOf_eq_ok_iff.mpr ⟨haccepted, rfl⟩, describes_settingsOf haccepted, rfl, rfl⟩

/-- Token sets in four kinds of folders. -/
def fourSets : List String :=
  ["global", "brand-theme/acme", "color-modes/light", "components/button"]

/-- A data directory whose metadata name them. -/
def withFourSets : FileTree :=
  ⟨[([fileName], .file ("\x7b\"tokenSetOrder\": [\"global\", \"brand-theme/acme\", " ++
    "\"color-modes/light\", \"components/button\"]\x7d").toUTF8 0)], [], 1⟩

theorem config_describes_fourSets :
    ∃ fields, readDocument withFourSets .here = .ok (.obj fields) ∧
      OrderedMap.get? fields "tokenSetOrder" = some (.arr (fourSets.map .str)) ∧ fourSets ≠ [] ∧
      ∃ settings, config withFourSets .here none none = .ok settings ∧
        Describes none fourSets settings := by
  have hrender : (readDocument withFourSets .here).toOption.map Json.render =
      some (Json.obj [("tokenSetOrder", .arr (fourSets.map .str))]).render := by
    decide +kernel
  cases hdocument : readDocument withFourSets .here with
  | error failure =>
    rw [hdocument] at hrender
    cases hrender
  | ok document =>
    rw [hdocument] at hrender
    have hobject := Json.render_injective (Option.some.inj hrender)
    have horder : OrderedMap.get? [("tokenSetOrder", Json.arr (fourSets.map .str))]
        "tokenSetOrder" = some (.arr (fourSets.map .str)) := rfl
    have haccepted : Accepted none fourSets := by
      constructor <;> decide
    obtain ⟨_, hdescribes⟩ := config_describes_tokenSets withFourSets .here none none _ fourSets
      (hobject ▸ hdocument) horder (by decide)
    obtain ⟨settings, hsettings, hshape, _⟩ := hdescribes (accepted_iff.mp haccepted)
    exact ⟨_, congrArg Except.ok hobject, horder, by decide, settings, hsettings, hshape⟩

end DesignTokens.Metadata
