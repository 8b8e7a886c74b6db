import DesignTokens.Proofs.FileTree.Below
import DesignTokens.Proofs.Watch.Calls
import DesignTokens.Proofs.Watch.Polls
/-!
# Which sources are watched

A watcher without paths of its own looks at the settings file and at the data directory of the
settings in force, from the first one on and after every reload.  In a directory it sees what lies
straight below under a name that ends in `.json`.  Whatever comes, goes or changes there between two
looks is reported by the second one, and a build follows; a document that a layer takes from
elsewhere, or from a file of another name, is reported by none.
-/

set_option autoImplicit false

namespace DesignTokens

/-! ## What is seen of a document -/

namespace FileTree

variable {tree : FileTree} {path : Path}

theorem hasEntry_iff : tree.hasEntry path = true ↔ ∃ time, tree.changedAt? path = some time := by
  unfold hasEntry changedAt?
  cases tree.stat path with
  | ok entry => exact iff_of_true rfl ⟨_, rfl⟩
  | error fault => exact iff_of_false Bool.false_ne_true nofun

end FileTree

namespace Poller

variable {tree : FileTree} {given path : Path} {time : Int}

/-- Where a poller of documents sees something: at a file that it was given, or straight below a
directory under a name that ends in `.json`. -/
inductive Reaches (tree : FileTree) (given : Path) : Path → Prop
  | itself (hfile : tree.hasFile given = true) : Reaches tree given given
  | below {names : List String} {stem : String} (hup : ".." ∉ names ++ [stem ++ ".json"]) :
      Reaches tree given (given.down (names ++ [stem ++ ".json"]))

theorem parts_json : Glob.parts "*.json" = .ok [.anywhere, .wildcard "*.json"] := by
  decide

theorem selects_json_iff (hplain : tree.IsPlain) :
    Selects defaultPatterns tree given path ↔
      tree.hasEntry path = true ∧ ∃ names stem, ".." ∉ names ++ [stem ++ ".json"] ∧
        path = given.down (names ++ [stem ++ ".json"]) := by
  unfold Selects defaultPatterns
  simp only [List.mem_singleton, exists_eq_left, parts_json, Except.ok.injEq, exists_eq_left']
  rw [hplain.mem_select_iff]
  constructor
  · rintro ⟨names, name, hup, hmatches, rfl, hentry⟩
    obtain ⟨stem, rfl⟩ := Glob.matchesName_json.mp hmatches
    exact ⟨hentry, names, stem, hup, rfl⟩
  · rintro ⟨hentry, names, stem, hup, rfl⟩
    exact ⟨names, stem ++ ".json", hup, Glob.matchesName_json.mpr ⟨stem, rfl⟩, rfl, hentry⟩

/-- A poller of documents sees just what it reaches. -/
theorem findsAt_iff_reaches (hplain : tree.IsPlain) (hentry : tree.hasEntry path = true) :
    FindsAt defaultPatterns tree given path ↔ Reaches tree given path := by
  unfold FindsAt
  rw [selects_json_iff hplain]
  constructor
  · rintro (⟨rfl, hfile⟩ | ⟨-, -, names, stem, hup, rfl⟩)
    · exact .itself hfile
    · exact .below hup
  · intro h
    cases h with
    | itself hfile => exact .inl ⟨rfl, hfile⟩
    | @below names stem hup =>
      refine .inr ⟨FileTree.hasDirectory_of_down ?_ hentry, hentry, names, stem, hup, rfl⟩
      simp

/-- A place that is seen is the one of a given path, or lies below it under a name that ends in
`.json`. -/
def Covers (tree : FileTree) (given : Path) (place : Location) : Prop :=
  place = tree.normalize given ∨
    ∃ names stem, place = tree.normalize given ++ (names ++ [stem ++ ".json"])

theorem Reaches.covers (h : Reaches tree given path) (other : FileTree) :
    Covers other given (other.normalize path) := by
  cases h with
  | itself _ => exact .inl rfl
  | @below names stem hup => exact .inr ⟨names, stem, FileTree.normalize_down hup⟩

end Poller

namespace Watcher

variable {watcher : Watcher} {tree : FileTree} {configFile : Option Path}
  {reloadFrom : Option ConfigOrigin} {seen : Scan}

/-! ## What a watcher looks at -/

/-- A watcher at rest that has no paths of its own: it looks at the data directory of the settings
in force and at the settings file, for documents, and holds what it saw when it last looked. -/
structure Looks (configFile : Option Path) (reloadFrom : Option ConfigOrigin) (seen : Scan)
    (watcher : Watcher) : Prop where
  coordination : watcher.coordination = .quiet
  explicitPaths : watcher.explicitPaths = []
  configFile_eq : watcher.configFile = configFile
  reloadFrom_eq : watcher.reloadFrom = reloadFrom
  paths : watcher.poller.paths = watcher.pipeline.config.dataDir :: configFile.toList
  patterns : watcher.poller.patterns = Poller.defaultPatterns
  seen_eq : watcher.poller.seen = seen

theorem looks_new (pipeline : Pipeline) (options : BuildOptions) (configFile : Option Path)
    (reloadFrom : Option ConfigOrigin) :
    Looks configFile reloadFrom [] (new pipeline options [] configFile reloadFrom) :=
  ⟨rfl, rfl, rfl, rfl, rfl, rfl, rfl⟩

theorem Looks.forgetful (h : Looks configFile reloadFrom seen watcher) :
    Looks configFile reloadFrom seen watcher.forgetful :=
  ⟨h.coordination, h.explicitPaths, h.configFile_eq, h.reloadFrom_eq, h.paths, h.patterns,
    h.seen_eq⟩

theorem Looks.withConfig (h : Looks configFile reloadFrom seen watcher) (config : Config) :
    Looks configFile reloadFrom seen (watcher.withConfig config) := by
  refine ⟨h.coordination, h.explicitPaths, h.configFile_eq, h.reloadFrom_eq, ?_, h.patterns,
    h.seen_eq⟩
  unfold Watcher.withConfig watchPaths
  simp only [h.explicitPaths, h.configFile_eq, List.isEmpty_nil, if_true]

/-- A build leaves the settings in force. -/
theorem Looks.buildOnce (h : Looks configFile reloadFrom seen watcher) (tree : FileTree) :
    Looks configFile reloadFrom seen (watcher.buildOnce tree []).watcher := by
  obtain ⟨failures, hbuilt⟩ := watcher_buildOnce watcher tree
  rw [hbuilt]
  exact ⟨h.coordination, h.explicitPaths, h.configFile_eq, h.reloadFrom_eq, h.paths, h.patterns,
    h.seen_eq⟩

/-- Settings that are loaded bring their data directory; otherwise nothing changes. -/
theorem reload_cases (watcher : Watcher) (tree : FileTree) :
    (∃ origin cause log, watcher.reloadFrom = some origin ∧ origin.BreaksDown tree cause ∧
        watcher.reload tree = ⟨.error cause, watcher, tree, log⟩) ∨
      ∃ about log, watcher.reload tree = ⟨.ok (), about, tree, log⟩ ∧
        (about = watcher ∨ ∃ config, about = watcher.withConfig config) := by
  cases horigin : watcher.reloadFrom with
  | none =>
    refine .inr ⟨watcher, [], ?_, .inl rfl⟩
    unfold reload
    rw [horigin]
  | some origin =>
    cases hload : origin.load tree with
    | ok config =>
      obtain ⟨log, hreload⟩ := reload_of_loaded horigin hload
      exact .inr ⟨_, log, hreload, .inr ⟨config, rfl⟩⟩
    | error failure =>
      by_cases hbroken : ∃ cause, failure = .breakdown cause
      · obtain ⟨cause, rfl⟩ := hbroken
        exact .inl ⟨origin, cause, [], rfl, ConfigOrigin.load_eq_breakdown_iff.mp hload,
          reload_of_breakdown horigin hload⟩
      · obtain ⟨log, hreload⟩ := reload_of_failure horigin hload (not_exists.mp hbroken)
        exact .inr ⟨watcher, log, hreload, .inl rfl⟩

/-- A serving runs one build, unless the settings break their reader. -/
theorem Looks.serve (h : Looks configFile reloadFrom seen watcher) (tree : FileTree)
    (wants : Bool) :
    Looks configFile reloadFrom seen (watcher.serve tree wants []).watcher ∧
      ((∃ origin cause, reloadFrom = some origin ∧ origin.BreaksDown tree cause) ∨
        (watcher.serve tree wants []).watcher.builds = watcher.builds + 1) := by
  have hbuilds (about : Watcher) : (about.buildOnce tree []).watcher.builds = about.builds + 1 := by
    obtain ⟨failures, hbuilt⟩ := watcher_buildOnce about tree
    rw [hbuilt]
    rfl
  cases wants with
  | false => exact ⟨h.buildOnce tree, .inr (hbuilds watcher)⟩
  | true =>
    rcases reload_cases watcher tree with
      ⟨origin, cause, log, horigin, hbreaks, hreload⟩ | ⟨about, log, hreload, habout⟩
    · refine ⟨?_, .inl ⟨origin, cause, h.reloadFrom_eq.symm.trans horigin, hbreaks⟩⟩
      unfold Watcher.serve
      rw [if_pos rfl, hreload]
      exact h
    · rw [serve_of_reload hreload]
      rcases habout with rfl | ⟨config, rfl⟩
      · exact ⟨h.buildOnce tree, .inr (hbuilds about)⟩
      · exact ⟨(h.withConfig config).buildOnce tree, .inr (hbuilds _)⟩

/-- A change that can be looked at is served. -/
theorem onChange_eq_serve {changed : List Path} {gone wants : Bool}
    (hquiet : watcher.coordination = .quiet) (hgone : anyGone tree changed = .ok gone)
    (hwants : (if watcher.reloadFrom.isSome then watcher.anyConfigChange tree changed
      else .ok false) = .ok wants) :
    ∃ log, watcher.onChange tree changed [] =
      ((if gone then watcher.forgetful else watcher).serve tree wants []).withLog log := by
  have hready : (if gone then watcher.forgetful else watcher).coordination = .quiet := by
    split <;> exact hquiet
  unfold onChange
  simp only [hgone, hwants]
  have hrebuild := rebuild_eq_serve hready tree wants
  unfold Watcher.forgetful at hrebuild ⊢
  exact ⟨_, congrArg (fun answer : Answer => answer.withLog (_ ++ answer.log)) hrebuild⟩

/-- A call leaves a watcher looking at the settings in force. -/
theorem Looks.answer (h : Looks configFile reloadFrom seen watcher) (tree : FileTree)
    (call : Call) :
    Looks configFile reloadFrom seen (watcher.answer tree call).watcher := by
  cases call with
  | rebuild wants =>
    unfold Watcher.answer
    simp only
    rw [rebuild_eq_serve h.coordination]
    exact (h.serve tree wants).1
  | onChange changed =>
    unfold Watcher.answer
    simp only
    cases hgone : anyGone tree changed with
    | error cause =>
      unfold onChange
      rw [hgone]
      exact h
    | ok gone =>
      have hready : Looks configFile reloadFrom seen
          (if gone then watcher.forgetful else watcher) := by
        split
        · exact h.forgetful
        · exact h
      cases hwants : (if watcher.reloadFrom.isSome then watcher.anyConfigChange tree changed
          else .ok false) with
      | error cause =>
        unfold onChange
        simp only [hgone, hwants]
        exact hready
      | ok wants =>
        obtain ⟨log, hserved⟩ := onChange_eq_serve h.coordination hgone hwants
        rw [hserved]
        exact (hready.serve tree wants).1

theorem Looks.after (h : Looks configFile reloadFrom seen watcher)
    (history : List (FileTree × Call)) :
    Looks configFile reloadFrom seen (watcher.after history) := by
  induction history generalizing watcher with
  | nil => exact h
  | cons made rest ih => exact ih (h.answer made.1 made.2)

/-! ## A run of calls and looks -/

/-- What happens to a watcher: a call, a look for changes, or the look that watching begins with. -/
inductive Event where
  | call (call : Call)
  | poll
  | start

/-- A watcher after an event.  A look that breaks down changes nothing. -/
def happens (watcher : Watcher) (tree : FileTree) : Event → Watcher
  | .call call => (watcher.answer tree call).watcher
  | .poll =>
    match watcher.poll tree with
    | .ok (_, polled) => polled
    | .error _ => watcher
  | .start =>
    match watcher.start tree with
    | .ok (started, _) => started
    | .error _ => watcher

/-- A watcher after events, each with the files as they are then. -/
def run (watcher : Watcher) (history : List (FileTree × Event)) : Watcher :=
  history.foldl (fun watcher event => watcher.happens event.1 event.2) watcher

theorem Looks.withSeen (h : Looks configFile reloadFrom seen watcher) (now : Scan) :
    Looks configFile reloadFrom now
      { watcher with poller := { watcher.poller with seen := now } } :=
  ⟨h.coordination, h.explicitPaths, h.configFile_eq, h.reloadFrom_eq, h.paths, h.patterns, rfl⟩

/-- A look replaces what was seen, and changes nothing else. -/
theorem poll_eq_ok {changed : List Path} {polled : Watcher}
    (h : watcher.poll tree = .ok (changed, polled)) :
    ∃ now, Poller.Shows (watcher.poller.Sees tree) now ∧
      changed = Poller.changes watcher.poller.seen now ∧
      polled = { watcher with poller := { watcher.poller with seen := now } } := by
  unfold poll at h
  rcases Poller.poll_cases watcher.poller tree with
    ⟨-, cause, hcause⟩ | ⟨-, now, hnow, hpoll⟩
  · have hbroken : watcher.poller.poll tree = _ := hcause watcher.poller.seen
    rw [hbroken] at h
    cases h
  · have hlook : watcher.poller.poll tree = _ := hpoll watcher.poller.seen
    rw [hlook] at h
    cases h
    exact ⟨now, hnow, rfl, rfl⟩

/-- Watching begins with a look. -/
theorem start_eq_ok {started : Watcher} {told : List LogLine}
    (h : watcher.start tree = .ok (started, told)) :
    ∃ now, Poller.Shows (watcher.poller.Sees tree) now ∧
      started = { watcher with poller := { watcher.poller with seen := now } } := by
  unfold start at h
  simp only at h
  rcases Poller.scan_cases watcher.poller tree with
    ⟨-, cause, hcause⟩ | ⟨-, now, hscan, hkeys, hget⟩
  · rw [hcause] at h
    cases h
  · rw [hscan] at h
    cases h
    exact ⟨now, ⟨hkeys, hget⟩, rfl⟩

/-- A watcher has looked at a tree, for changes or to begin watching. -/
def HasLooked (watcher : Watcher) (tree : FileTree) (looked : Watcher) : Prop :=
  (∃ reported, watcher.poll tree = .ok (reported, looked)) ∨
    ∃ told, watcher.start tree = .ok (looked, told)

theorem HasLooked.exists_seen {looked : Watcher} (h : watcher.HasLooked tree looked) :
    ∃ now, Poller.Shows (watcher.poller.Sees tree) now ∧
      looked = { watcher with poller := { watcher.poller with seen := now } } := by
  rcases h with ⟨reported, hpoll⟩ | ⟨told, hstart⟩
  · obtain ⟨now, hnow, -, hlooked⟩ := poll_eq_ok hpoll
    exact ⟨now, hnow, hlooked⟩
  · exact start_eq_ok hstart

/-- After a look a watcher holds what it saw. -/
theorem Looks.hasLooked (h : Looks configFile reloadFrom seen watcher) {looked : Watcher}
    (hlook : watcher.HasLooked tree looked) :
    ∃ now, Poller.Shows (looked.poller.Sees tree) now ∧ Looks configFile reloadFrom now looked := by
  obtain ⟨now, hnow, rfl⟩ := hlook.exists_seen
  exact ⟨now, hnow, h.withSeen now⟩

theorem Looks.happens (h : Looks configFile reloadFrom seen watcher) (tree : FileTree)
    (event : Event) : ∃ now, Looks configFile reloadFrom now (watcher.happens tree event) := by
  unfold Watcher.happens
  cases event with
  | call call => exact ⟨seen, h.answer tree call⟩
  | poll =>
    cases hpoll : watcher.poll tree with
    | error cause => exact ⟨seen, h⟩
    | ok answer =>
      obtain ⟨now, -, hnext⟩ := h.hasLooked (.inl ⟨answer.1, hpoll⟩)
      exact ⟨now, hnext⟩
  | start =>
    cases hstart : watcher.start tree with
    | error cause => exact ⟨seen, h⟩
    | ok answer =>
      obtain ⟨now, -, hnext⟩ := h.hasLooked (.inr ⟨answer.2, hstart⟩)
      exact ⟨now, hnext⟩

/-- Whatever has happened, a watcher looks at the settings in force. -/
theorem exists_looks_run (h : Looks configFile reloadFrom seen watcher)
    (history : List (FileTree × Event)) :
    ∃ now, Looks configFile reloadFrom now (watcher.run history) := by
  induction history generalizing watcher seen with
  | nil => exact ⟨seen, h⟩
  | cons event rest ih =>
    obtain ⟨now, hnext⟩ := h.happens event.1 event.2
    exact ih hnext

/-! ## What a look reports -/

/-- A watcher sees a document with the time of its last change. -/
def SeesDocument (watcher : Watcher) (tree : FileTree) (path : Path) (time : Int) : Prop :=
  (∃ given ∈ watcher.poller.paths, Poller.Reaches tree given path) ∧
    tree.changedAt? path = some time

theorem Looks.sees_iff (h : Looks configFile reloadFrom seen watcher) (hplain : tree.IsPlain)
    {path : Path} {time : Int} :
    watcher.poller.Sees tree path time ↔ watcher.SeesDocument tree path time := by
  unfold Poller.Sees Poller.Watches SeesDocument
  rw [h.patterns]
  refine and_congr_left fun hchanged => exists_congr fun given => and_congr_right fun _ => ?_
  exact Poller.findsAt_iff_reaches hplain (FileTree.hasEntry_iff.mpr ⟨time, hchanged⟩)

/-- Looking breaks down just for names that are too long. -/
theorem Looks.poll_eq_error_iff (h : Looks configFile reloadFrom seen watcher) (tree : FileTree) :
    (∃ cause, watcher.poll tree = .error cause) ↔
      ∃ given ∈ watcher.pipeline.config.dataDir :: configFile.toList,
        tree.stat given = .error .nameTooLong := by
  have hblocked : watcher.poller.Blocked tree ↔
      ∃ given ∈ watcher.pipeline.config.dataDir :: configFile.toList,
        tree.stat given = .error .nameTooLong := by
    unfold Poller.Blocked Poller.Blocks
    rw [h.paths, h.patterns]
    refine exists_congr fun given => and_congr_right fun _ => or_iff_left ?_
    rintro ⟨-, pattern, hpattern, fault, hfault⟩
    rw [List.mem_singleton.mp hpattern, Poller.parts_json] at hfault
    cases hfault
  rw [← hblocked]
  unfold poll
  rcases Poller.poll_cases watcher.poller tree with
    ⟨hbroken, cause, hcause⟩ | ⟨hfree, now, hnow, hpoll⟩
  · have hlook : watcher.poller.poll tree = _ := hcause watcher.poller.seen
    rw [hlook]
    exact iff_of_true ⟨cause, rfl⟩ hbroken
  · have hlook : watcher.poller.poll tree = _ := hpoll watcher.poller.seen
    rw [hlook]
    exact iff_of_false nofun hfree

/-! ## What follows a report -/

theorem anyGone_eq_ok {changed : List Path}
    (h : ∀ path ∈ changed, ∃ found, tree.findEntry path = .ok found) :
    ∃ gone, anyGone tree changed = .ok gone := by
  induction changed with
  | nil => exact ⟨false, rfl⟩
  | cons path changed ih =>
    obtain ⟨⟨found, hfound⟩, hlater⟩ := List.forall_mem_cons.mp h
    unfold anyGone
    rw [hfound]
    cases found with
    | true => exact ih hlater
    | false => exact ⟨true, rfl⟩

theorem isAmong_eq_ok {paths : List Path} (h : ∀ path ∈ paths, path.hasNul = false)
    (tree : FileTree) (place : Location) : ∃ found, isAmong tree place paths = .ok found := by
  induction paths with
  | nil => exact ⟨false, rfl⟩
  | cons path paths ih =>
    obtain ⟨hpath, hlater⟩ := List.forall_mem_cons.mp h
    unfold isAmong placeOf
    rw [if_neg (by simp [hpath])]
    simp only
    split
    · exact ⟨true, rfl⟩
    · exact ih hlater

/-- Paths without NUL can be compared with the settings file and the metadata. -/
theorem Looks.anyConfigChange_eq_ok (h : Looks configFile reloadFrom seen watcher)
    (hgiven : ∀ given ∈ watcher.poller.paths, given.hasNul = false) {changed : List Path}
    (hchanged : ∀ path ∈ changed, path.hasNul = false) :
    ∃ wants, watcher.anyConfigChange tree changed = .ok wants := by
  rw [h.paths] at hgiven
  obtain ⟨hdataDir, hfile⟩ := List.forall_mem_cons.mp hgiven
  have hname : Path.ofString Metadata.fileName = ⟨.here, ["$metadata.json"]⟩ := by decide
  have hwatched : ∀ path ∈ watcher.pipeline.config.dataDir.join (Path.ofString Metadata.fileName) ::
      watcher.configFile.toList, path.hasNul = false := by
    refine List.forall_mem_cons.mpr ⟨?_, h.configFile_eq ▸ hfile⟩
    rw [hname]
    unfold Path.hasNul at hdataDir
    change (watcher.pipeline.config.dataDir.names ++ ["$metadata.json"]).any _ = false
    rw [List.any_append, hdataDir]
    decide
  induction changed with
  | nil => exact ⟨false, rfl⟩
  | cons path changed ih =>
    obtain ⟨hpath, hlater⟩ := List.forall_mem_cons.mp hchanged
    obtain ⟨found, hfound⟩ := isAmong_eq_ok hwatched tree (tree.normalize path)
    have hplace : placeOf tree path = .ok (tree.normalize path) := by
      unfold placeOf
      rw [if_neg (by simp [hpath])]
    unfold anyConfigChange isConfigChange
    rw [hplace]
    simp only [hfound]
    cases found with
    | true => exact ⟨true, rfl⟩
    | false => exact ih hlater

/-- A round that finds changes builds, unless the settings break their reader. -/
theorem Looks.builds_watchRound (h : Looks configFile reloadFrom seen watcher)
    {changed : List Path} {polled : Watcher} (hpoll : watcher.poll tree = .ok (changed, polled))
    (hne : changed ≠ [])
    (hfind : ∀ path ∈ changed, path.hasNul = false ∧ ∃ found, tree.findEntry path = .ok found)
    (hgiven : ∀ given ∈ watcher.poller.paths, given.hasNul = false)
    (hsettings : ∀ origin, reloadFrom = some origin → ∀ cause, ¬ origin.BreaksDown tree cause) :
    (watcher.watchRound tree []).watcher.builds = watcher.builds + 1 := by
  obtain ⟨now, -, -, hpolled⟩ := poll_eq_ok hpoll
  have hlooks : Looks configFile reloadFrom now polled := by
    rw [hpolled]
    exact h.withSeen now
  have hbuilds : polled.builds = watcher.builds := by rw [hpolled]
  have hgiven' : ∀ given ∈ polled.poller.paths, given.hasNul = false := by
    rw [hpolled]
    exact hgiven
  obtain ⟨gone, hgone⟩ := anyGone_eq_ok fun path hpath => (hfind path hpath).2
  obtain ⟨wants, hwants⟩ : ∃ wants, (if polled.reloadFrom.isSome then
      polled.anyConfigChange tree changed else .ok false) = .ok wants := by
    split
    · exact hlooks.anyConfigChange_eq_ok hgiven' fun path hpath => (hfind path hpath).1
    · exact ⟨false, rfl⟩
  obtain ⟨log, hserved⟩ := onChange_eq_serve hlooks.coordination hgone hwants
  have hready : Looks configFile reloadFrom now (if gone then polled.forgetful else polled) ∧
      (if gone then polled.forgetful else polled).builds = watcher.builds := by
    split
    · exact ⟨hlooks.forgetful, hbuilds⟩
    · exact ⟨hlooks, hbuilds⟩
  have hbuilt : (polled.onChange tree changed []).watcher.builds = watcher.builds + 1 := by
    rw [hserved, ← hready.2]
    rcases (hready.1.serve tree wants).2 with ⟨origin, cause, horigin, hbreaks⟩ | hserve
    · exact absurd hbreaks (hsettings origin horigin cause)
    · exact hserve
  unfold watchRound
  rw [hpoll]
  cases changed with
  | nil => exact absurd rfl hne
  | cons path changed =>
    simp only
    split
    · exact hbuilt
    · exact hbuilt

/-! ## Sources -/

/-- A document of a data directory: straight below it, under a name that ends in `.json`. -/
def IsDocumentOf (dataDir path : Path) : Prop :=
  ∃ names stem, ".." ∉ names ++ [stem ++ ".json"] ∧
    path = dataDir.down (names ++ [stem ++ ".json"])

/-- The path straight down from a data directory to the place of a source, however the source itself
is written. -/
structure LeadsTo (tree : FileTree) (dataDir source path : Path) : Prop where
  place : tree.normalize path = tree.normalize source
  document : IsDocumentOf dataDir path

/-- What a look at the second of two trees comes to, by a watcher that has looked at the first one
and has served calls since then. -/
structure Reports (looked ready : Watcher) (first second : FileTree) (changed : List Path) :
    Prop where
  /-- Just the documents are reported that are seen at one of the two times, or at a later time. -/
  reported_iff : ∀ path, path ∈ changed ↔
    Poller.Differs (· < ·) (looked.SeesDocument first) (ready.SeesDocument second) path
  created : ∀ source ∈ ready.pipeline.config.sourcePaths, ∀ path,
    LeadsTo second ready.pipeline.config.dataDir source path → first.hasEntry path = false →
    second.hasEntry path = true → path ∈ changed
  changed_later : ∀ source ∈ ready.pipeline.config.sourcePaths, ∀ path,
    LeadsTo second ready.pipeline.config.dataDir source path → ∀ earlier later,
    first.changedAt? path = some earlier → second.changedAt? path = some later →
    earlier < later → path ∈ changed
  /-- What is gone is reported if the first look was at the same data directory. -/
  removed : ∀ source ∈ ready.pipeline.config.sourcePaths, ∀ path,
    LeadsTo second ready.pipeline.config.dataDir source path →
    looked.pipeline.config.dataDir = ready.pipeline.config.dataDir →
    first.hasEntry path = true → second.hasEntry path = false → path ∈ changed
  /-- Nothing is reported of any other place, by whatever path. -/
  covered : ∀ path ∈ changed, ∃ given ∈ looked.poller.paths ++ ready.poller.paths,
    Poller.Covers second given (second.normalize path)
  rebuilt : changed ≠ [] → (∀ given ∈ ready.poller.paths, given.hasNul = false) →
    (∀ origin, ready.reloadFrom = some origin → ∀ cause, ¬ origin.BreaksDown second cause) →
    (ready.watchRound second []).watcher.builds = ready.builds + 1

variable {looked ready polled : Watcher} {first second : FileTree} {changed : List Path}

/-- A look compares with what was seen at the look before, whatever calls came between. -/
theorem Looks.mem_changed_iff (hlooked : Looks configFile reloadFrom seen looked)
    (hready : Looks configFile reloadFrom seen ready)
    (hseen : Poller.Shows (looked.poller.Sees first) seen) (hfirst : first.IsPlain)
    (hsecond : second.IsPlain) (hpoll : ready.poll second = .ok (changed, polled)) (path : Path) :
    path ∈ changed ↔
      Poller.Differs (· < ·) (looked.SeesDocument first) (ready.SeesDocument second) path := by
  obtain ⟨now, hnow, hchanged, -⟩ := poll_eq_ok hpoll
  have hsaw : looked.poller.Sees first = looked.SeesDocument first :=
    funext fun path => funext fun time => propext (hlooked.sees_iff hfirst)
  have hsees : ready.poller.Sees second = ready.SeesDocument second :=
    funext fun path => funext fun time => propext (hready.sees_iff hsecond)
  rw [hsaw] at hseen
  rw [hsees] at hnow
  rw [hchanged, hready.seen_eq]
  exact hseen.mem_changes_iff hnow

/-- A document of the data directory is seen as soon as it is there. -/
theorem Looks.seesDocument (h : Looks configFile reloadFrom seen watcher) {path : Path}
    {time : Int} (hpath : IsDocumentOf watcher.pipeline.config.dataDir path)
    (hchanged : tree.changedAt? path = some time) : watcher.SeesDocument tree path time := by
  obtain ⟨names, stem, hup, rfl⟩ := hpath
  refine ⟨⟨watcher.pipeline.config.dataDir, ?_, .below hup⟩, hchanged⟩
  rw [h.paths]
  exact List.mem_cons_self

theorem not_seesDocument {path : Path} (h : tree.hasEntry path = false) (time : Int) :
    ¬ watcher.SeesDocument tree path time := by
  rintro ⟨-, hchanged⟩
  rw [FileTree.hasEntry_iff.mpr ⟨time, hchanged⟩] at h
  cases h

theorem Looks.reports (hlooked : Looks configFile reloadFrom seen looked)
    (hready : Looks configFile reloadFrom seen ready)
    (hseen : Poller.Shows (looked.poller.Sees first) seen) (hfirst : first.IsPlain)
    (hsecond : second.IsPlain) (hpoll : ready.poll second = .ok (changed, polled)) :
    Reports looked ready first second changed := by
  have hmem := hlooked.mem_changed_iff hready hseen hfirst hsecond hpoll
  -- What is reported was there at one of the two times.
  have hthere : ∀ path ∈ changed,
      (first.hasEntry path = true ∧
          ∃ given ∈ looked.poller.paths, Poller.Reaches first given path) ∨
        (second.hasEntry path = true ∧
          ∃ given ∈ ready.poller.paths, Poller.Reaches second given path) := by
    intro path hpath
    rcases (hmem path).mp hpath with ⟨hsees, -⟩ | ⟨hsaw, -⟩ | ⟨-, hsees, -⟩
    · exact .inr ⟨FileTree.hasEntry_iff.mpr ⟨_, hsees.2⟩, hsees.1⟩
    · exact .inl ⟨FileTree.hasEntry_iff.mpr ⟨_, hsaw.2⟩, hsaw.1⟩
    · exact .inr ⟨FileTree.hasEntry_iff.mpr ⟨_, hsees.2⟩, hsees.1⟩
  refine ⟨hmem, ?_, ?_, ?_, ?_, ?_⟩
  · intro _ _ path hpath hnone hsome
    obtain ⟨time, htime⟩ := FileTree.hasEntry_iff.mp hsome
    have hsees := hready.seesDocument hpath.document htime
    exact (hmem path).mpr (.new hsees (not_seesDocument hnone))
  · intro _ _ path hpath earlier later hearlier hlater hlt
    have hsees := hready.seesDocument hpath.document hlater
    by_cases hsaw : looked.SeesDocument first path earlier
    · exact (hmem path).mpr (.changed hsaw hsees hlt)
    · refine (hmem path).mpr (.new hsees fun time hsaw' => hsaw ?_)
      have hsame : time = earlier := Option.some.inj (hsaw'.2.symm.trans hearlier)
      exact hsame ▸ hsaw'
  · intro _ _ path hpath hsame hsome hnone
    obtain ⟨time, htime⟩ := FileTree.hasEntry_iff.mp hsome
    have hsaw := hlooked.seesDocument (hsame ▸ hpath.document) htime
    exact (hmem path).mpr (.gone hsaw (not_seesDocument hnone))
  · intro path hpath
    rcases hthere path hpath with ⟨-, given, hgiven, hreaches⟩ | ⟨-, given, hgiven, hreaches⟩
    · exact ⟨given, List.mem_append_left _ hgiven, hreaches.covers second⟩
    · exact ⟨given, List.mem_append_right _ hgiven, hreaches.covers second⟩
  · intro hne hgiven hsettings
    refine hready.builds_watchRound hpoll hne (fun path hpath => ?_) hgiven ?_
    · rcases hthere path hpath with ⟨hentry, -⟩ | ⟨hentry, -⟩
      · exact FileTree.exists_findEntry_of_hasEntry hentry second
      · exact FileTree.exists_findEntry_of_hasEntry hentry second
    · rw [← hready.reloadFrom_eq]
      exact hsettings

/-- Whatever has happened to a watcher without paths of its own, it looks at the data directory of
the settings in force and at the settings file, and a look breaks down only if one of these has a
name that is too long.  After a look, for changes or to begin watching, and any calls, the next look
for changes reports the sources in the data directory that have come, gone or changed between the
two, and nothing of any place elsewhere; and a round of watching that reports anything builds. -/
theorem sources_watched (pipeline : Pipeline) (options : BuildOptions) (configFile : Option Path)
    (reloadFrom : Option ConfigOrigin) (history : List (FileTree × Event)) (first second : FileTree)
    (hfirst : first.IsPlain) (hsecond : second.IsPlain) (between : List (FileTree × Call)) :
    let before := (new pipeline options [] configFile reloadFrom).run history
    before.poller.paths = before.pipeline.config.dataDir :: configFile.toList ∧
      (∀ tree, (∃ cause, before.poll tree = .error cause) ↔
        ∃ given ∈ before.poller.paths, tree.stat given = .error .nameTooLong) ∧
      ∀ looked, before.HasLooked first looked →
        (looked.after between).poller.paths =
            (looked.after between).pipeline.config.dataDir :: configFile.toList ∧
          ∀ changed polled, (looked.after between).poll second = .ok (changed, polled) →
            Reports looked (looked.after between) first second changed := by
  intro before
  obtain ⟨seen, hbefore⟩ :=
    exists_looks_run (looks_new pipeline options configFile reloadFrom) history
  refine ⟨hbefore.paths, fun tree => ?_, fun looked hlook => ?_⟩
  · rw [hbefore.paths]
    exact hbefore.poll_eq_error_iff tree
  · obtain ⟨now, hseen, hlooks⟩ := hbefore.hasLooked hlook
    have hready := hlooks.after between
    exact ⟨hready.paths, fun changed polled hpoll =>
      hlooks.reports hready hseen hfirst hsecond hpoll⟩

/-! ## Sources elsewhere -/

/-- Settings with a document of the data directory, one beside that directory, and one of another
name. -/
def scatteredConfig : Config :=
  { Config.oneDocument with
    layers := [.base, { LayerSource.base with name := "shared", source := some "../shared.json" },
      { LayerSource.base with name := "other", source := some "base.tokens" }] }

/-- These documents, the first one changed at a time, and the others at a time of their own. -/
def scatteredTree (inside elsewhere : Int) : FileTree :=
  { entries := [(["tokens"], .directory 0),
      (["tokens", "base.json"], .file "\x7b\x7d".toUTF8 inside),
      (["shared.json"], .file "\x7b\x7d".toUTF8 elsewhere),
      (["tokens", "base.tokens"], .file "\x7b\x7d".toUTF8 elsewhere)]
    workingDirectory := []
    clock := 0 }

/-- A watcher with these settings. -/
def ofScattered : Watcher :=
  new (Pipeline.new scatteredConfig .empty false) .plain [] none none

theorem sources_watched_scattered :
    ∃ reported looked, ofScattered.poll (scatteredTree 1 1) = .ok (reported, looked) ∧
      ∃ changed polled, looked.poll (scatteredTree 2 1) = .ok (changed, polled) ∧
        ⟨.root, ["tokens", "base.json"]⟩ ∈ changed ∧
        (looked.watchRound (scatteredTree 2 1) []).watcher.builds = 1 := by
  obtain ⟨-, -, hreports⟩ := sources_watched (Pipeline.new scatteredConfig .empty false) .plain
    none none [] (scatteredTree 1 1) (scatteredTree 2 1) (by decide) (by decide) []
  have hlook : ∃ answer, ofScattered.poll (scatteredTree 1 1) = .ok answer := ⟨_, rfl⟩
  obtain ⟨⟨reported, looked⟩, hlook⟩ := hlook
  obtain ⟨now, -, -, hlooked⟩ := poll_eq_ok hlook
  have hagain : ∃ answer, looked.poll (scatteredTree 2 1) = .ok answer := by
    rw [hlooked]
    exact ⟨_, rfl⟩
  obtain ⟨⟨changed, polled⟩, hagain⟩ := hagain
  have hreport := (hreports looked (.inl ⟨reported, hlook⟩)).2 changed polled hagain
  have hconfig : looked.pipeline.config = scatteredConfig := by
    rw [hlooked]
    rfl
  have hmem : ⟨.root, ["tokens", "base.json"]⟩ ∈ changed := by
    refine hreport.changed_later ⟨.root, ["tokens", "base.json"]⟩ ?_ _ ⟨rfl, ?_⟩ 1 2 rfl rfl
      (by decide)
    · change _ ∈ looked.pipeline.config.sourcePaths
      rw [hconfig]
      decide
    · change IsDocumentOf looked.pipeline.config.dataDir _
      rw [hconfig]
      exact ⟨[], "base", by decide, by decide⟩
  refine ⟨reported, looked, hlook, changed, polled, hagain, hmem, ?_⟩
  have hbuilds : looked.builds + 1 = 1 := by rw [hlooked]; rfl
  rw [← hbuilds]
  refine hreport.rebuilt (List.ne_nil_of_mem hmem) ?_ ?_
  · change ∀ given ∈ looked.poller.paths, given.hasNul = false
    rw [hlooked]
    change ∀ given ∈ ofScattered.poller.paths, given.hasNul = false
    decide
  · change ∀ origin, looked.reloadFrom = some origin → _
    rw [hlooked]
    nofun

/-- Sources beside the data directory, or of another name, change without a report. -/
theorem sources_elsewhere_are_not_reported :
    let shared : Path := ⟨.root, ["tokens", "..", "shared.json"]⟩
    let other : Path := ⟨.root, ["tokens", "base.tokens"]⟩
    let looked := ofScattered.run [(scatteredTree 1 1, .poll)]
    looked.pipeline.config.sourcePaths = [⟨.root, ["tokens", "base.json"]⟩, shared, other] ∧
      (scatteredTree 1 1).changedAt? shared = some 1 ∧
      (scatteredTree 1 2).changedAt? shared = some 2 ∧
      (scatteredTree 1 1).changedAt? other = some 1 ∧
      (scatteredTree 1 2).changedAt? other = some 2 ∧
      (looked.poll (scatteredTree 1 2)).map (·.1) = .ok [] := by
  refine ⟨by decide +kernel, rfl, rfl, rfl, rfl, ?_⟩
  decide +kernel

end Watcher

end DesignTokens
