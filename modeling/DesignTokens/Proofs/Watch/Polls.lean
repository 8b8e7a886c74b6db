import DesignTokens.Proofs.Lists
import DesignTokens.Proofs.OrderedMap
import DesignTokens.Proofs.Store.Reuse
import DesignTokens.Watch.Poller
/-!
# What polls report

A poller sees the files that it was given, and what its patterns lead to below the directories that
it was given.  A poll compares what is seen now with what was seen when the poller last could look,
and nothing else: it reports, in order and each once, the paths that are seen at only one of the two
times, and those that are seen at both with a later time.
-/

set_option autoImplicit false

namespace DesignTokens

/-! ## Orders of paths -/

namespace Path

theorem lessEq_iff {p q : Path} : lessEq p q = true ↔ ¬ q.sortKey < p.sortKey := by
  unfold lessEq
  rw [Bool.not_eq_true', decide_eq_false_iff_not]

/-- Sorted paths stand in order. -/
theorem pairwise_sort (paths : List Path) :
    (sort paths).Pairwise fun p q => lessEq p q = true := by
  refine List.pairwise_mergeSort ?_ ?_ paths
  · intro p q r hpq hqr
    rw [lessEq_iff] at hpq hqr ⊢
    exact List.le_trans (List.not_lt.mp hpq) (List.not_lt.mp hqr)
  · intro p q
    rw [Bool.or_eq_true, lessEq_iff, lessEq_iff]
    exact List.le_total p.sortKey q.sortKey

theorem mem_sort {paths : List Path} {path : Path} : path ∈ sort paths ↔ path ∈ paths :=
  List.mem_mergeSort

theorem nodup_sort {paths : List Path} : (sort paths).Nodup ↔ paths.Nodup :=
  (List.mergeSort_perm paths lessEq).nodup_iff

end Path

/-- Where no key has two values, a map made of pairs has the values of these. -/
theorem OrderedMap.get?_ofPairs_eq_some_iff {κ ν : Type} [DecidableEq κ] {pairs : List (κ × ν)}
    {value? : κ → Option ν} (h : ∀ pair ∈ pairs, value? pair.1 = some pair.2) {key : κ} {value : ν} :
    get? (ofPairs pairs) key = some value ↔ (key, value) ∈ pairs := by
  rw [get?_ofPairs, Option.map_eq_some_iff]
  constructor
  · rintro ⟨pair, hfind, rfl⟩
    have hkey : pair.1 = key := by simpa using List.find?_some hfind
    rw [← hkey]
    exact List.mem_reverse.mp (List.mem_of_find?_eq_some hfind)
  · intro hmem
    have hsome : (pairs.reverse.find? fun pair => pair.1 = key).isSome := by
      rw [List.find?_isSome]
      exact ⟨_, List.mem_reverse.mpr hmem, by simp⟩
    obtain ⟨pair, hfind⟩ := Option.isSome_iff_exists.mp hsome
    have hkey : pair.1 = key := by simpa using List.find?_some hfind
    have hvalue := h pair (List.mem_reverse.mp (List.mem_of_find?_eq_some hfind))
    rw [hkey, h _ hmem] at hvalue
    exact ⟨pair, hfind, (Option.some.inj hvalue).symm⟩

namespace Poller

variable {poller : Poller} {tree : FileTree} {path : Path} {time : Int}

/-! ## What there is to see -/

/-- Some pattern leads from a directory to a path. -/
def Selects (patterns : List String) (tree : FileTree) (directory path : Path) : Prop :=
  ∃ pattern ∈ patterns, ∃ parts, Glob.parts pattern = .ok parts ∧ path ∈ tree.select directory parts

/-- What is found at a path that a poller was given: the file there, or what the patterns lead to
from the directory there. -/
def FindsAt (patterns : List String) (tree : FileTree) (given path : Path) : Prop :=
  (path = given ∧ tree.hasFile given = true) ∨
    (tree.hasDirectory given = true ∧ Selects patterns tree given path)

/-- A poller watches a path: it is found at one of the paths that the poller was given. -/
def Watches (poller : Poller) (tree : FileTree) (path : Path) : Prop :=
  ∃ given ∈ poller.paths, FindsAt poller.patterns tree given path

/-- A poller sees a path with the time of its last change. -/
def Sees (poller : Poller) (tree : FileTree) (path : Path) (time : Int) : Prop :=
  poller.Watches tree path ∧ tree.changedAt? path = some time

/-- A path keeps a poller from looking: a name in it is too long, or it leads to a directory where a
pattern is read that is none. -/
def Blocks (patterns : List String) (tree : FileTree) (path : Path) : Prop :=
  tree.stat path = .error .nameTooLong ∨
    (tree.hasDirectory path = true ∧ ∃ pattern ∈ patterns, ∃ fault, Glob.parts pattern = .error fault)

/-- A poller cannot look. -/
def Blocked (poller : Poller) (tree : FileTree) : Prop :=
  ∃ path ∈ poller.paths, Blocks poller.patterns tree path

/-! ## Scans -/

theorem mem_glob_iff {directory : Path} {pattern : String} {parts : List Glob.Part}
    {found : List (Path × Int)} (hparts : Glob.parts pattern = .ok parts)
    (h : tree.glob directory pattern = .ok found) :
    (path, time) ∈ found ↔ path ∈ tree.select directory parts ∧ tree.changedAt? path = some time := by
  unfold FileTree.glob at h
  rw [hparts] at h
  rw [← Except.ok.inj h, List.mem_filterMap]
  constructor
  · rintro ⟨other, hselect, hentry⟩
    split at hentry
    · rename_i entry hstat
      cases hentry
      exact ⟨hselect, FileTree.changedAt?_of_stat hstat⟩
    · cases hentry
  · rintro ⟨hselect, hchanged⟩
    refine ⟨path, hselect, ?_⟩
    unfold FileTree.changedAt? at hchanged
    cases hstat : tree.stat path with
    | error fault =>
      rw [hstat] at hchanged
      cases hchanged
    | ok entry =>
      rw [hstat] at hchanged
      rw [← Option.some.inj hchanged]

/-- What stands at a path is a file or a directory. -/
theorem kind_of_stat {given : Path} {entry : Entry}
    (h : tree.stat given = .ok entry) :
    tree.hasFile given = !entry.isDirectory ∧ tree.hasDirectory given = entry.isDirectory := by
  unfold FileTree.hasFile FileTree.hasDirectory
  rw [h]
  exact ⟨rfl, rfl⟩

/-- What the patterns lead to from a directory. -/
theorem globs_cases (patterns : List String) (tree : FileTree) (directory : Path) :
    (∃ found, patterns.mapM (tree.glob directory) = .ok found ∧
        (∀ pattern ∈ patterns, ∃ parts, Glob.parts pattern = .ok parts) ∧
        ∀ path time, (path, time) ∈ found.flatten ↔
          Selects patterns tree directory path ∧ tree.changedAt? path = some time) ∨
      ((∃ fault, patterns.mapM (tree.glob directory) = .error fault) ∧
        ∃ pattern ∈ patterns, ∃ fault, Glob.parts pattern = .error fault) := by
  rcases Lists.mapM_cases (tree.glob directory) patterns with
    ⟨found, hfound, hall⟩ | ⟨hrefused, pattern, hpattern, fault, hfault⟩
  · have hparts : ∀ pattern ∈ patterns, ∃ parts, Glob.parts pattern = .ok parts := by
      intro pattern hpattern
      obtain ⟨paths, _, hpaths⟩ := Lists.exists_right_of_forall₂ hall hpattern
      unfold FileTree.glob at hpaths
      cases hread : Glob.parts pattern with
      | ok parts => exact ⟨parts, rfl⟩
      | error fault =>
        rw [hread] at hpaths
        cases hpaths
    refine .inl ⟨found, hfound, hparts, fun path time => ?_⟩
    rw [List.mem_flatten]
    constructor
    · rintro ⟨paths, hpaths, hmem⟩
      obtain ⟨pattern, hpattern, hglob⟩ := Lists.exists_right_of_forall₂ hall.flip hpaths
      obtain ⟨parts, hread⟩ := hparts pattern hpattern
      obtain ⟨hselect, hchanged⟩ := (mem_glob_iff hread hglob).mp hmem
      exact ⟨⟨pattern, hpattern, parts, hread, hselect⟩, hchanged⟩
    · rintro ⟨⟨pattern, hpattern, parts, hread, hselect⟩, hchanged⟩
      obtain ⟨paths, hpaths, hglob⟩ := Lists.exists_right_of_forall₂ hall hpattern
      exact ⟨paths, hpaths, (mem_glob_iff hread hglob).mpr ⟨hselect, hchanged⟩⟩
  · refine .inr ⟨hrefused, pattern, hpattern, ?_⟩
    unfold FileTree.glob at hfault
    cases hread : Glob.parts pattern with
    | ok parts =>
      rw [hread] at hfault
      cases hfault
    | error fault => exact ⟨fault, rfl⟩

/-- What is found at a given path, unless the path keeps the poller from looking. -/
theorem scanPath_cases (patterns : List String) (tree : FileTree) (given : Path) :
    (Blocks patterns tree given ∧ ∃ cause, scanPath patterns tree given = .error cause) ∨
      (¬Blocks patterns tree given ∧ ∃ found, scanPath patterns tree given = .ok found ∧
        ∀ path time, (path, time) ∈ found ↔
          FindsAt patterns tree given path ∧ tree.changedAt? path = some time) := by
  unfold Blocks FindsAt scanPath
  cases hstat : tree.stat given with
  | error fault =>
    have hnone : tree.hasFile given = false ∧ tree.hasDirectory given = false := by
      unfold FileTree.hasFile FileTree.hasDirectory
      rw [hstat]
      exact ⟨rfl, rfl⟩
    rw [hnone.1, hnone.2]
    by_cases hlong : fault = .nameTooLong
    · subst hlong
      exact .inl ⟨.inl rfl, _, rfl⟩
    · refine .inr ⟨?_, [], ?_, ?_⟩
      · simp [hlong]
      · cases fault <;> first | rfl | exact absurd rfl hlong
      · simp
  | ok entry =>
    obtain ⟨hfile, hdirectory⟩ := kind_of_stat hstat
    rw [hfile, hdirectory]
    cases entry with
    | file bytes changed =>
      refine .inr ⟨by simp [Entry.isDirectory], [(given, changed)], rfl, fun path time => ?_⟩
      rw [List.mem_singleton, Prod.mk.injEq]
      constructor
      · rintro ⟨rfl, rfl⟩
        exact ⟨.inl ⟨rfl, rfl⟩, FileTree.changedAt?_of_stat hstat⟩
      · rintro ⟨⟨rfl, _⟩ | ⟨hnone, _⟩, hchanged⟩
        · rw [FileTree.changedAt?_of_stat hstat] at hchanged
          exact ⟨rfl, (Option.some.inj hchanged).symm⟩
        · cases hnone
    | directory changed =>
      rcases globs_cases patterns tree given with
        ⟨found, hfound, hparts, hmem⟩ | ⟨⟨fault, hfault⟩, hbroken⟩
      · refine .inr ⟨?_, found.flatten, by simp only [hfound], fun path time => ?_⟩
        · rintro (hnone | ⟨_, pattern, hpattern, fault, hbroken⟩)
          · cases hnone
          · obtain ⟨parts, hread⟩ := hparts pattern hpattern
            rw [hread] at hbroken
            cases hbroken
        · rw [hmem path time]
          simp [Entry.isDirectory]
      · exact .inl ⟨.inr ⟨rfl, hbroken⟩, .pattern fault, by simp only [hfault]⟩

theorem mem_of_scanPath {patterns : List String} {given : Path} {found : List (Path × Int)}
    (h : scanPath patterns tree given = .ok found) :
    (path, time) ∈ found ↔
      FindsAt patterns tree given path ∧ tree.changedAt? path = some time := by
  rcases scanPath_cases patterns tree given with ⟨_, cause, hcause⟩ | ⟨_, found', hfound, hmem⟩
  · rw [hcause] at h
    cases h
  · rw [hfound] at h
    cases h
    exact hmem path time

/-- A poller that can look sees what it watches, with the times of the last changes. -/
theorem scan_cases (poller : Poller) (tree : FileTree) :
    (poller.Blocked tree ∧ ∃ cause, poller.scan tree = .error cause) ∨
      (¬poller.Blocked tree ∧ ∃ seen, poller.scan tree = .ok seen ∧
        (OrderedMap.keys seen).Nodup ∧
        ∀ path time, OrderedMap.get? seen path = some time ↔ poller.Sees tree path time) := by
  unfold scan
  rcases Lists.mapM_cases (scanPath poller.patterns tree) poller.paths with
    ⟨found, hfound, hall⟩ | ⟨⟨cause, hcause⟩, given, hgiven, fault, hfault⟩
  · have hfinds : ∀ path time, (path, time) ∈ found.flatten ↔ poller.Sees tree path time := by
      intro path time
      rw [List.mem_flatten]
      constructor
      · rintro ⟨paths, hpaths, hmem⟩
        obtain ⟨given, hgiven, hscan⟩ := Lists.exists_right_of_forall₂ hall.flip hpaths
        obtain ⟨hfind, hchanged⟩ := (mem_of_scanPath hscan).mp hmem
        exact ⟨⟨given, hgiven, hfind⟩, hchanged⟩
      · rintro ⟨⟨given, hgiven, hfind⟩, hchanged⟩
        obtain ⟨paths, hpaths, hscan⟩ := Lists.exists_right_of_forall₂ hall hgiven
        exact ⟨paths, hpaths, (mem_of_scanPath hscan).mpr ⟨hfind, hchanged⟩⟩
    refine .inr ⟨?_, _, by rw [hfound]; rfl, OrderedMap.nodup_keys_ofPairs _, fun path time => ?_⟩
    · rintro ⟨given, hgiven, hblocks⟩
      obtain ⟨paths, _, hpaths⟩ := Lists.exists_right_of_forall₂ hall hgiven
      rcases scanPath_cases poller.patterns tree given with ⟨_, cause, hcause⟩ | ⟨hfree, _⟩
      · rw [hcause] at hpaths
        cases hpaths
      · exact hfree hblocks
    · have hone : ∀ pair ∈ found.flatten, tree.changedAt? pair.1 = some pair.2 :=
        fun pair hpair => ((hfinds pair.1 pair.2).mp hpair).2
      rw [OrderedMap.get?_ofPairs_eq_some_iff hone]
      exact hfinds path time
  · rcases scanPath_cases poller.patterns tree given with ⟨hblocks, _⟩ | ⟨_, found, hfound, _⟩
    · exact .inl ⟨⟨given, hgiven, hblocks⟩, cause, by rw [hcause]; rfl⟩
    · rw [hfault] at hfound
      cases hfound

/-! ## One poll -/

variable {before now : Scan}

/-- What has changed between two scans. -/
theorem mem_changes_iff (hnow : (OrderedMap.keys now).Nodup) :
    path ∈ changes before now ↔
      (∃ time, OrderedMap.get? now path = some time ∧
        ∀ earlier, OrderedMap.get? before path = some earlier → earlier < time) ∨
      (OrderedMap.get? now path = none ∧ ∃ earlier, OrderedMap.get? before path = some earlier) := by
  unfold changes
  rw [Path.mem_sort, List.mem_append, List.mem_map, List.mem_filter]
  refine or_congr ⟨?_, ?_⟩ ?_
  · rintro ⟨⟨path, time⟩, hmem, rfl⟩
    obtain ⟨hfile, hnewer⟩ := List.mem_filter.mp hmem
    refine ⟨time, OrderedMap.get?_eq_some_of_mem hnow hfile, fun earlier hearlier => ?_⟩
    unfold isNewer at hnewer
    simpa [hearlier] using hnewer
  · rintro ⟨time, htime, hlater⟩
    refine ⟨(path, time), List.mem_filter.mpr ⟨OrderedMap.mem_of_get?_eq_some htime, ?_⟩, rfl⟩
    unfold isNewer
    split
    · rfl
    · rename_i earlier hearlier
      exact decide_eq_true (hlater earlier hearlier)
  · rw [and_comm, Bool.not_eq_true', ← Bool.not_eq_true, OrderedMap.has_iff_mem_keys,
      ← OrderedMap.get?_eq_none_iff, ← OrderedMap.get?_isSome_iff, Option.isSome_iff_exists]

theorem nodup_changes (hbefore : (OrderedMap.keys before).Nodup)
    (hnow : (OrderedMap.keys now).Nodup) : (changes before now).Nodup := by
  unfold changes
  rw [Path.nodup_sort, List.nodup_append]
  refine ⟨hnow.sublist (List.filter_sublist.map _), hbefore.filter _, ?_⟩
  rintro path hpath _ hgone rfl
  obtain ⟨⟨_, time⟩, hmem, rfl⟩ := List.mem_map.mp hpath
  have hseen := OrderedMap.get?_eq_some_of_mem hnow (List.mem_of_mem_filter hmem)
  have hhas := (OrderedMap.has_iff_mem_keys now _).mpr (OrderedMap.mem_keys_of_get?_eq_some hseen)
  simp [hhas] at hgone

/-- How a path differs between what was seen and what is seen: it is new, it is gone, or it has
another time than it had, in the given sense. -/
inductive Differs (another : Int → Int → Prop) (saw sees : Path → Int → Prop) (path : Path) : Prop
    where
  | new {time : Int} (hsees : sees path time) (hnew : ∀ earlier, ¬saw path earlier)
  | gone {earlier : Int} (hsaw : saw path earlier) (hgone : ∀ time, ¬sees path time)
  | changed {earlier time : Int} (hsaw : saw path earlier) (hsees : sees path time)
      (hanother : another earlier time)

/-- A scan holds what is seen. -/
structure Shows (sees : Path → Int → Prop) (seen : Scan) : Prop where
  keys : (OrderedMap.keys seen).Nodup
  get? : ∀ path time, OrderedMap.get? seen path = some time ↔ sees path time

variable {saw sees : Path → Int → Prop}

/-- What is seen at a path has one time. -/
theorem Shows.unique {seen : Scan} (h : Shows sees seen) {time' : Int} (htime : sees path time)
    (htime' : sees path time') : time = time' := by
  rw [← h.get?] at htime htime'
  exact Option.some.inj (htime.symm.trans htime')

theorem Shows.mem_changes_iff (hbefore : Shows saw before) (hnow : Shows sees now) :
    path ∈ changes before now ↔ Differs (· < ·) saw sees path := by
  rw [Poller.mem_changes_iff hnow.keys]
  simp only [hbefore.get?, hnow.get?]
  constructor
  · rintro (⟨time, htime, hlater⟩ | ⟨hgone, earlier, hearlier⟩)
    · by_cases hsaw : ∃ earlier, saw path earlier
      · obtain ⟨earlier, hearlier⟩ := hsaw
        exact .changed hearlier htime (hlater earlier hearlier)
      · exact .new htime (not_exists.mp hsaw)
    · refine .gone hearlier fun time htime => ?_
      rw [← hnow.get?, hgone] at htime
      cases htime
  · rintro (⟨htime, hnew⟩ | ⟨hearlier, hgone⟩ | ⟨hearlier, htime, hlater⟩)
    · exact .inl ⟨_, htime, fun earlier hearlier => absurd hearlier (hnew earlier)⟩
    · refine .inr ⟨Option.eq_none_iff_forall_ne_some.mpr fun time htime => ?_, _, hearlier⟩
      exact hgone time ((hnow.get? path time).mp htime)
    · refine .inl ⟨_, htime, fun earlier' hearlier' => ?_⟩
      rw [hbefore.unique hearlier' hearlier]
      exact hlater

/-- Where the same is seen as before, nothing differs. -/
theorem Shows.changes_eq_nil (hbefore : Shows saw before) (hnow : Shows sees now)
    (h : ∀ path time, saw path time ↔ sees path time) : changes before now = [] := by
  refine List.eq_nil_iff_forall_not_mem.mpr fun path hmem => ?_
  rcases (hbefore.mem_changes_iff hnow).mp hmem with
    ⟨htime, hnew⟩ | ⟨hearlier, hgone⟩ | ⟨hearlier, htime, hlater⟩
  · exact hnew _ ((h path _).mpr htime)
  · exact hgone _ ((h path _).mp hearlier)
  · rw [hbefore.unique hearlier ((h path _).mpr htime)] at hlater
    exact Int.lt_irrefl _ hlater

/-- Another time is always a later one exactly if no time goes back. -/
theorem Shows.differs_iff (hbefore : Shows saw before) (hnow : Shows sees now) :
    (∀ path, Differs (· < ·) saw sees path ↔ Differs (· ≠ ·) saw sees path) ↔
      ∀ path earlier time, saw path earlier → sees path time → earlier ≤ time := by
  constructor
  · intro hsame path earlier time hearlier htime
    by_contra hback
    have hdiffers : Differs (· < ·) saw sees path :=
      (hsame path).mpr (.changed hearlier htime fun heq => hback (Int.le_of_eq heq))
    rcases hdiffers with ⟨_, hnew⟩ | ⟨_, hgone⟩ | ⟨hearlier', htime', hlater⟩
    · exact hnew earlier hearlier
    · exact hgone time htime
    · rw [hbefore.unique hearlier' hearlier, hnow.unique htime' htime] at hlater
      exact hback (Int.le_of_lt hlater)
  · intro hforward path
    constructor
    · rintro (⟨htime, hnew⟩ | ⟨hearlier, hgone⟩ | ⟨hearlier, htime, hlater⟩)
      · exact .new htime hnew
      · exact .gone hearlier hgone
      · exact .changed hearlier htime (Int.ne_of_lt hlater)
    · rintro (⟨htime, hnew⟩ | ⟨hearlier, hgone⟩ | ⟨hearlier, htime, hanother⟩)
      · exact .new htime hnew
      · exact .gone hearlier hgone
      · exact .changed hearlier htime
          (Int.lt_iff_le_and_ne.mpr ⟨hforward path _ _ hearlier htime, hanother⟩)

/-- A poll compares what is seen with what the poller has seen, if it can look at all. -/
theorem poll_cases (poller : Poller) (tree : FileTree) :
    (poller.Blocked tree ∧ ∃ cause, ∀ before,
        { poller with seen := before }.poll tree = .error cause) ∨
      (¬poller.Blocked tree ∧ ∃ now, Shows (poller.Sees tree) now ∧
        ∀ before, { poller with seen := before }.poll tree =
          .ok (changes before now, { poller with seen := now })) := by
  unfold poll
  rcases scan_cases poller tree with ⟨hblocked, cause, hcause⟩ | ⟨hfree, now, hnow, hkeys, hget⟩
  · refine .inl ⟨hblocked, cause, fun before => ?_⟩
    have hscan : { poller with seen := before }.scan tree = .error cause := hcause
    rw [hscan]
    rfl
  · refine .inr ⟨hfree, now, ⟨hkeys, hget⟩, fun before => ?_⟩
    have hscan : { poller with seen := before }.scan tree = .ok now := hnow
    rw [hscan]
    rfl

/-! ## A run of polls -/

/-- A poller that has looked at a tree, if it could. -/
def look (poller : Poller) (tree : FileTree) : Poller :=
  match poller.poll tree with
  | .ok (_, next) => next
  | .error _ => poller

/-- A poller that has looked at trees, one after the other. -/
def after (poller : Poller) (history : List FileTree) : Poller :=
  history.foldl look poller

/-- The last of some trees at which a poller could look. -/
def lastLook (poller : Poller) (history : List FileTree) : Option FileTree :=
  history.reverse.find? fun tree => (poller.scan tree).isOk

/-- What a poller saw when it last could look. -/
def Saw (poller : Poller) (history : List FileTree) (path : Path) (time : Int) : Prop :=
  ∃ tree ∈ poller.lastLook history, poller.Sees tree path time

theorem after_concat (poller : Poller) (history : List FileTree) (tree : FileTree) :
    poller.after (history ++ [tree]) = (poller.after history).look tree := by
  unfold after
  rw [List.foldl_append, List.foldl_cons, List.foldl_nil]

theorem lastLook_concat (poller : Poller) (history : List FileTree) (tree : FileTree) :
    poller.lastLook (history ++ [tree]) =
      if (poller.scan tree).isOk then some tree else poller.lastLook history := by
  unfold lastLook
  rw [List.reverse_append, List.reverse_singleton, List.singleton_append, List.find?_cons]
  split <;> simp_all

theorem isOk_scan_iff : (poller.scan tree).isOk = true ↔ ¬poller.Blocked tree := by
  rcases scan_cases poller tree with ⟨hblocked, cause, hcause⟩ | ⟨hfree, seen, hseen, _⟩
  · rw [hcause]
    exact iff_of_false Bool.false_ne_true (not_not.mpr hblocked)
  · rw [hseen]
    exact iff_of_true rfl hfree

/-- After any history a poller holds what it saw when it last could look. -/
theorem exists_after_new (paths : List Path) (patterns : List String) (history : List FileTree) :
    ∃ seen, (new paths patterns).after history = { new paths patterns with seen } ∧
      Shows ((new paths patterns).Saw history) seen := by
  induction history using List.reverseRecOn with
  | nil =>
    refine ⟨[], rfl, .nil, fun path time => ?_⟩
    constructor
    · intro hnone
      cases hnone
    · rintro ⟨_, hnone, _⟩
      cases hnone
  | append_singleton history tree ih =>
    obtain ⟨seen, hafter, hshows⟩ := ih
    rw [after_concat, hafter]
    unfold look Saw
    rw [lastLook_concat]
    rcases poll_cases (new paths patterns) tree with
      ⟨hblocked, cause, hcause⟩ | ⟨hfree, now, hnow, hpoll⟩
    · rw [hcause seen, if_neg fun hok => isOk_scan_iff.mp hok hblocked]
      exact ⟨seen, rfl, hshows⟩
    · rw [hpoll seen, if_pos (isOk_scan_iff.mpr hfree)]
      refine ⟨now, rfl, hnow.keys, fun path time => (hnow.get? path time).trans ?_⟩
      constructor
      · exact fun hsees => ⟨tree, rfl, hsees⟩
      · rintro ⟨_, hlast, hsees⟩
        rwa [Option.some.inj hlast]

/-- Whatever a poller has looked at before, each poll reports the paths that are seen at only one of
the last two looks, and those that are seen at both with a later time: in order, and each once.  That
is all that differs exactly if no time went back.  A poll without a change reports nothing. -/
theorem poll_reports_later (paths : List Path) (patterns : List String) (history : List FileTree)
    (tree : FileTree) :
    let poller := (new paths patterns).after history
    let saw := poller.Saw history
    let sees := poller.Sees tree
    (poller.Blocked tree ∧ ∃ cause, poller.poll tree = .error cause) ∨
      ∃ changed, poller.poll tree =
          .ok (changed, (new paths patterns).after (history ++ [tree])) ∧
        (changed.Pairwise fun first second => Path.lessEq first second = true) ∧
        changed.Nodup ∧
        (∀ path, path ∈ changed ↔ Differs (· < ·) saw sees path) ∧
        ((∀ path, path ∈ changed ↔ Differs (· ≠ ·) saw sees path) ↔
          ∀ path earlier time, saw path earlier → sees path time → earlier ≤ time) ∧
        ((∀ path time, saw path time ↔ sees path time) → changed = []) ∧
        ((new paths patterns).after (history ++ [tree])).poll tree =
          .ok ([], (new paths patterns).after (history ++ [tree])) := by
  intro poller saw sees
  obtain ⟨seen, hafter, hsaw⟩ := exists_after_new paths patterns history
  have hshows : Shows saw poller.seen := by
    have hpoller : poller = { new paths patterns with seen } := hafter
    unfold saw
    rw [hpoller]
    exact hsaw
  rcases poll_cases poller tree with ⟨hblocked, cause, hcause⟩ | ⟨_, now, hnow, hpoll⟩
  · exact .inl ⟨hblocked, cause, hcause poller.seen⟩
  · have hnext : (new paths patterns).after (history ++ [tree]) = { poller with seen := now } := by
      have hlook : poller.poll tree = _ := hpoll poller.seen
      rw [after_concat]
      unfold look
      rw [hlook]
    rw [hnext]
    refine .inr ⟨changes poller.seen now, hpoll poller.seen, Path.pairwise_sort _,
      nodup_changes hshows.keys hnow.keys, fun path => hshows.mem_changes_iff hnow, ?_,
      hshows.changes_eq_nil hnow, ?_⟩
    · simp only [hshows.mem_changes_iff hnow]
      exact hshows.differs_iff hnow
    · rw [hpoll now, hnow.changes_eq_nil hnow fun _ _ => Iff.rfl]

/-! ## A document put back -/

/-- A directory with one document, changed at a time. -/
def documentSince (changed : Int) : FileTree :=
  { entries := [(["tokens"], .directory 0), (["tokens", "base.json"], .file "\x7b\x7d".toUTF8 changed)]
    workingDirectory := []
    clock := changed }

/-- A poller of that directory. -/
def ofTokens : Poller := new [⟨.here, ["tokens"]⟩] []

theorem ofTokens_sees (changed : Int) :
    ofTokens.Sees (documentSince changed) ⟨.here, ["tokens", "base.json"]⟩ changed := by
  have hselect : (documentSince changed).select ⟨.here, ["tokens"]⟩
      [.anywhere, .wildcard "*.json"] = [⟨.here, ["tokens", "base.json"]⟩] := by
    rfl
  refine ⟨⟨⟨.here, ["tokens"]⟩, List.mem_cons_self, .inr ⟨rfl, "*.json", List.mem_cons_self,
    [.anywhere, .wildcard "*.json"], by decide, ?_⟩⟩, rfl⟩
  rw [hselect]
  exact List.mem_cons_self

/-- A document that is replaced by one with an earlier time is not reported, although its time has
changed between the two looks. -/
theorem restored_document_is_not_reported :
    ((ofTokens.after [documentSince 2000]).poll (documentSince 1000)).map (·.1) = .ok [] ∧
      Differs (· ≠ ·) ((ofTokens.after [documentSince 2000]).Saw [documentSince 2000])
        ((ofTokens.after [documentSince 2000]).Sees (documentSince 1000))
        ⟨.here, ["tokens", "base.json"]⟩ := by
  have hsaw : (ofTokens.after [documentSince 2000]).Saw [documentSince 2000]
      ⟨.here, ["tokens", "base.json"]⟩ 2000 := ⟨documentSince 2000, rfl, ofTokens_sees 2000⟩
  have hsees : (ofTokens.after [documentSince 2000]).Sees (documentSince 1000)
      ⟨.here, ["tokens", "base.json"]⟩ 1000 := ofTokens_sees 1000
  exact ⟨by decide +kernel, .changed hsaw hsees (by decide)⟩

end Poller

end DesignTokens
