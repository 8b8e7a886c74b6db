import DesignTokens.Proofs.Build.Stages
import DesignTokens.Proofs.Config.Breakdown
import DesignTokens.Watch.Watcher
/-!
# What a call to a watcher comes to

A watcher that knows where its settings come from is called again and again, whatever the files hold
each time.  A call runs one build, with the settings that can be loaded then or else with the
previous ones, and leaves no flag raised.  Only a breakdown ends it early: of looking at the changed
paths, of loading the settings, or of the build.
-/

set_option autoImplicit false

namespace DesignTokens.Watcher

/-! ## Calls -/

/-- A call to a watcher. -/
inductive Call where
  | rebuild (reload : Bool)
  | onChange (changed : List Path)

/-- What a call yields if no other one comes meanwhile. -/
def answer (watcher : Watcher) (tree : FileTree) : Call → Answer
  | .rebuild reload => watcher.rebuild tree reload []
  | .onChange changed => watcher.onChange tree changed []

/-- The watcher after calls, each with the files as they are then. -/
def after (watcher : Watcher) (history : List (FileTree × Call)) : Watcher :=
  history.foldl (fun watcher made => (watcher.answer made.1 made.2).watcher) watcher

/-- A watcher that has forgotten its documents. -/
def forgetful (watcher : Watcher) : Watcher :=
  { watcher with pipeline := { watcher.pipeline with store := watcher.pipeline.store.clear } }

/-- What a call asks for: the watcher that is to serve it, which forgets its documents if a changed
path leads to nothing, and whether the settings are to be loaded anew. -/
def asked (watcher : Watcher) (tree : FileTree) : Call → Except Breakdown (Watcher × Bool)
  | .rebuild reload => .ok (watcher, reload)
  | .onChange changed =>
    match anyGone tree changed, watcher.anyConfigChange tree changed with
    | .error cause, _ => .error cause
    | .ok _, .error cause => .error cause
    | .ok gone, .ok wants => .ok (if gone then watcher.forgetful else watcher, wants)

/-- A watcher with settings that have been loaded. -/
def withConfig (watcher : Watcher) (config : Config) : Watcher :=
  let pipeline := Pipeline.new config watcher.pipeline.cache watcher.pipeline.detailed
  let paths := watchPaths watcher.explicitPaths pipeline watcher.configFile
  { watcher with
    pipeline
    poller := { watcher.poller with paths }
    reloads := watcher.reloads + 1 }

/-- A watcher that has run a build, with the failures counted then. -/
def built (watcher : Watcher) (tree : FileTree) (failures : Nat) : Watcher :=
  { watcher with
    pipeline := (watcher.pipeline.run tree watcher.options).pipeline
    builds := watcher.builds + 1
    failures }

/-- The watcher that is about to build, after it has loaded the settings if they are wanted. -/
def equipped (watcher : Watcher) (origin : ConfigOrigin) (tree : FileTree) (wants : Bool) :
    Except Breakdown Watcher :=
  if wants then
    match origin.load tree with
    | .ok config => .ok (watcher.withConfig config)
    | .error (.breakdown cause) => .error cause
    | .error _ => .ok watcher
  else
    .ok watcher

/-- The watcher that is about to build for a call. -/
def ready (watcher : Watcher) (origin : ConfigOrigin) (tree : FileTree) (call : Call) :
    Except Breakdown Watcher :=
  match watcher.asked tree call with
  | .error cause => .error cause
  | .ok (kept, wants) => kept.equipped origin tree wants

variable {watcher : Watcher} {tree : FileTree} {origin : ConfigOrigin} {call : Call}

/-! ## A call at rest is one serving -/

/-- The same answer with other flags. -/
def Answer.withFlags (answer : Answer) (flags : Coordination) : Answer :=
  { answer with watcher := { answer.watcher with coordination := flags } }

theorem buildOnce_withFlags (watcher : Watcher) (tree : FileTree) (flags : Coordination) :
    { watcher with coordination := flags }.buildOnce tree [] =
      (watcher.buildOnce tree []).withFlags flags := by
  unfold buildOnce
  simp only
  split
  · rfl
  · rfl
  · rfl

theorem reload_withFlags (watcher : Watcher) (tree : FileTree) (flags : Coordination) :
    { watcher with coordination := flags }.reload tree =
      (watcher.reload tree).withFlags flags := by
  unfold reload
  simp only
  split
  · rfl
  · split
    · rfl
    · rfl
    · rfl

/-- Serving does not look at the flags, and raises none if no call comes meanwhile. -/
theorem serve_withFlags (watcher : Watcher) (tree : FileTree) (wants : Bool)
    (flags : Coordination) :
    { watcher with coordination := flags }.serve tree wants [] =
      (watcher.serve tree wants []).withFlags flags := by
  unfold serve
  cases wants with
  | false =>
    simp only [Bool.false_eq_true, if_false]
    rw [buildOnce_withFlags]
    rfl
  | true =>
    simp only [if_true]
    rw [reload_withFlags]
    simp only [Answer.withFlags]
    split
    · rfl
    · simp only
      rw [buildOnce_withFlags]
      rfl

/-- A trigger that finds nothing raised and the lock free is served at once, and by itself. -/
theorem rebuild_eq_serve (hquiet : watcher.coordination = .quiet) (tree : FileTree)
    (wants : Bool) : watcher.rebuild tree wants [] = watcher.serve tree wants [] := by
  have hsame : watcher.serve tree wants [] = (watcher.serve tree wants []).withFlags .quiet := by
    rw [← serve_withFlags, ← hquiet]
  have hannounced : watcher.coordination.announce wants = ⟨true, wants, false⟩ := by
    rw [hquiet]
    rfl
  unfold rebuild
  rw [hannounced]
  -- The lock is taken, the flags are taken, and the lock is released after the one serving.
  change (({ watcher with coordination := ⟨false, false, true⟩ }.serve tree wants []).withFlags
    ({ watcher with coordination := ⟨false, false, true⟩ }.serve tree wants
      []).watcher.coordination.release) = watcher.serve tree wants []
  rw [serve_withFlags, hsame]
  rfl

/-! ## From what is asked to the build -/

/-- The same answer with another log. -/
def Answer.withLog (answer : Answer) (log : List LogLine) : Answer :=
  { answer with log }

theorem reload_of_loaded {config : Config} (horigin : watcher.reloadFrom = some origin)
    (h : origin.load tree = .ok config) :
    ∃ log, watcher.reload tree = ⟨.ok (), watcher.withConfig config, tree, log⟩ := by
  unfold reload withConfig
  rw [horigin]
  simp only [h]
  exact ⟨_, rfl⟩

theorem reload_of_failure {failure : Failure} (horigin : watcher.reloadFrom = some origin)
    (h : origin.load tree = .error failure) (hfailure : ∀ cause, failure ≠ .breakdown cause) :
    ∃ log, watcher.reload tree = ⟨.ok (), watcher, tree, log⟩ := by
  unfold reload
  rw [horigin]
  simp only [h]
  cases failure with
  | breakdown cause => exact absurd rfl (hfailure cause)
  | error e => exact ⟨_, rfl⟩
  | collected errors => exact ⟨_, rfl⟩

theorem reload_of_breakdown {cause : Breakdown} (horigin : watcher.reloadFrom = some origin)
    (h : origin.load tree = .error (.breakdown cause)) :
    watcher.reload tree = ⟨.error cause, watcher, tree, []⟩ := by
  unfold reload
  rw [horigin]
  simp only [h]

theorem serve_of_reload {about : Watcher} {log : List LogLine}
    (h : watcher.reload tree = ⟨.ok (), about, tree, log⟩) :
    watcher.serve tree true [] =
      (about.buildOnce tree []).withLog (log ++ (about.buildOnce tree []).log) := by
  unfold serve
  rw [if_pos rfl, h]
  rfl

/-- Settings that break down are all that a serving comes to. -/
theorem serve_of_equipped_error {wants : Bool} {cause : Breakdown}
    (horigin : watcher.reloadFrom = some origin)
    (h : watcher.equipped origin tree wants = .error cause) :
    ∃ log, watcher.serve tree wants [] = ⟨.error cause, watcher, tree, log⟩ := by
  unfold equipped at h
  split at h
  · rename_i hwants
    subst hwants
    split at h
    · cases h
    · rename_i hload
      cases h
      refine ⟨[], ?_⟩
      unfold serve
      rw [if_pos rfl, reload_of_breakdown horigin hload]
    · cases h
  · cases h

/-- With settings, a serving is one build. -/
theorem serve_of_equipped {wants : Bool} {about : Watcher}
    (horigin : watcher.reloadFrom = some origin)
    (h : watcher.equipped origin tree wants = .ok about) :
    ∃ log, watcher.serve tree wants [] = (about.buildOnce tree []).withLog log := by
  unfold equipped at h
  split at h
  · rename_i hwants
    subst hwants
    split at h
    · rename_i config hload
      cases h
      obtain ⟨log, hreload⟩ := reload_of_loaded horigin hload
      exact ⟨_, serve_of_reload hreload⟩
    · cases h
    · rename_i failure hfailure hload
      cases h
      obtain ⟨log, hreload⟩ := reload_of_failure horigin hload hfailure
      exact ⟨_, serve_of_reload hreload⟩
  · rename_i hwants
    cases h
    rw [Bool.not_eq_true] at hwants
    subst hwants
    exact ⟨_, rfl⟩

/-- A call whose asking is answered is one serving. -/
theorem answer_of_asked {kept : Watcher} {wants : Bool} (hquiet : watcher.coordination = .quiet)
    (horigin : watcher.reloadFrom = some origin)
    (h : watcher.asked tree call = .ok (kept, wants)) :
    ∃ log, watcher.answer tree call = (kept.serve tree wants []).withLog log := by
  unfold answer
  unfold asked at h
  cases call with
  | rebuild reload =>
    cases h
    refine ⟨(watcher.serve tree wants []).log, ?_⟩
    simp only
    rw [rebuild_eq_serve hquiet]
    rfl
  | onChange changed =>
    simp only at h ⊢
    split at h
    · cases h
    · cases h
    · rename_i gone wants' hgone hwants
      have hkept : (if gone then watcher.forgetful else watcher) = kept ∧ wants' = wants :=
        Prod.mk.inj (Except.ok.inj h)
      obtain ⟨hkept, rfl⟩ := hkept
      have hquiet' : kept.coordination = .quiet := by
        rw [← hkept, ← hquiet]
        split
        · rfl
        · rfl
      have hsome : watcher.reloadFrom.isSome = true := by
        rw [horigin]
        rfl
      let told := changed.map fun path => LogLine.info s!"Change detected: {path}"
      refine ⟨told ++ (kept.serve tree wants' []).log, ?_⟩
      unfold onChange
      simp only [hgone]
      rw [if_pos hsome, hwants, ← rebuild_eq_serve hquiet', ← hkept]
      rfl

theorem kept_of_asked {kept : Watcher} {wants : Bool}
    (h : watcher.asked tree call = .ok (kept, wants)) :
    kept = watcher ∨ kept = watcher.forgetful := by
  unfold asked at h
  split at h
  · cases h
    exact .inl rfl
  · split at h
    · cases h
    · cases h
    · rename_i gone _ _ _
      cases h
      cases gone with
      | false => exact .inl rfl
      | true => exact .inr rfl

theorem reloadFrom_of_kept {kept : Watcher} (h : kept = watcher ∨ kept = watcher.forgetful)
    (horigin : watcher.reloadFrom = some origin) : kept.reloadFrom = some origin := by
  rcases h with rfl | rfl
  · exact horigin
  · exact horigin

theorem answer_of_asked_error {cause : Breakdown} (horigin : watcher.reloadFrom = some origin)
    (h : watcher.asked tree call = .error cause) :
    ∃ kept log, (kept = watcher ∨ kept = watcher.forgetful) ∧
      watcher.answer tree call = ⟨.error cause, kept, tree, log⟩ := by
  unfold asked at h
  unfold answer
  cases call with
  | rebuild reload => cases h
  | onChange changed =>
    simp only at h ⊢
    unfold onChange
    split at h
    · rename_i hgone
      cases h
      simp only [hgone]
      exact ⟨_, _, .inl rfl, rfl⟩
    · rename_i gone _ hgone hwants
      cases h
      have hsome : watcher.reloadFrom.isSome = true := by
        rw [horigin]
        rfl
      simp only [hgone, hwants]
      rw [if_pos hsome]
      refine ⟨_, _, ?_, rfl⟩
      cases gone with
      | false => exact .inl rfl
      | true => exact .inr rfl
    · cases h

/-- A call that breaks down before it builds leaves all but the documents that are kept. -/
theorem answer_of_ready_error {cause : Breakdown} (hquiet : watcher.coordination = .quiet)
    (horigin : watcher.reloadFrom = some origin)
    (h : watcher.ready origin tree call = .error cause) :
    ∃ kept log, (kept = watcher ∨ kept = watcher.forgetful) ∧
      watcher.answer tree call = ⟨.error cause, kept, tree, log⟩ := by
  unfold ready at h
  split at h
  · rename_i hasked
    cases h
    exact answer_of_asked_error horigin hasked
  · rename_i kept wants hasked
    have hkept := kept_of_asked hasked
    obtain ⟨told, hanswer⟩ := answer_of_asked hquiet horigin hasked
    obtain ⟨log, hserved⟩ := serve_of_equipped_error (reloadFrom_of_kept hkept horigin) h
    refine ⟨kept, told, hkept, ?_⟩
    rw [hanswer, hserved]
    rfl

/-- Any other call builds once. -/
theorem answer_of_ready {about : Watcher} (hquiet : watcher.coordination = .quiet)
    (horigin : watcher.reloadFrom = some origin)
    (h : watcher.ready origin tree call = .ok about) :
    ∃ log, watcher.answer tree call = (about.buildOnce tree []).withLog log := by
  unfold ready at h
  split at h
  · cases h
  · rename_i kept wants hasked
    obtain ⟨told, hanswer⟩ := answer_of_asked hquiet horigin hasked
    obtain ⟨log, hserved⟩ := serve_of_equipped
      (reloadFrom_of_kept (kept_of_asked hasked) horigin) h
    refine ⟨told, ?_⟩
    rw [hanswer, hserved]
    rfl

/-! ## The build -/

theorem buildOnce_of_ok {report : Report}
    (h : (watcher.pipeline.run tree watcher.options).result = .ok report) :
    ∃ log, watcher.buildOnce tree [] =
      ⟨.ok (), watcher.built tree watcher.failures,
        (watcher.pipeline.run tree watcher.options).tree, log⟩ := by
  unfold buildOnce
  simp only [h]
  exact ⟨_, rfl⟩

theorem buildOnce_of_failure {failure : Failure}
    (h : (watcher.pipeline.run tree watcher.options).result = .error failure)
    (hfailure : ∀ cause, failure ≠ .breakdown cause) :
    ∃ log, watcher.buildOnce tree [] =
      ⟨.ok (), watcher.built tree (watcher.failures + 1),
        (watcher.pipeline.run tree watcher.options).tree, log⟩ := by
  unfold buildOnce
  simp only [h]
  cases failure with
  | breakdown cause => exact absurd rfl (hfailure cause)
  | error e => exact ⟨_, rfl⟩
  | collected errors => exact ⟨_, rfl⟩

theorem buildOnce_of_breakdown {cause : Breakdown}
    (h : (watcher.pipeline.run tree watcher.options).result = .error (.breakdown cause)) :
    ∃ log, watcher.buildOnce tree [] =
      ⟨.error cause, watcher.built tree watcher.failures,
        (watcher.pipeline.run tree watcher.options).tree, log⟩ := by
  unfold buildOnce
  simp only [h]
  exact ⟨_, rfl⟩

/-- A build does not touch what the watcher is told, its flags, or what it looks at. -/
theorem watcher_buildOnce (watcher : Watcher) (tree : FileTree) :
    ∃ failures, (watcher.buildOnce tree []).watcher = watcher.built tree failures := by
  unfold buildOnce
  simp only
  split
  · exact ⟨watcher.failures, rfl⟩
  · exact ⟨watcher.failures, rfl⟩
  · exact ⟨watcher.failures + 1, rfl⟩

/-! ## Call after call -/

/-- A watcher with no flag raised and the lock free, that is still told what it was told first. -/
structure AtRest (options : BuildOptions) (explicit : List Path) (configFile : Option Path)
    (origin : ConfigOrigin) (watcher : Watcher) : Prop where
  coordination : watcher.coordination = .quiet
  options_eq : watcher.options = options
  explicitPaths : watcher.explicitPaths = explicit
  configFile_eq : watcher.configFile = configFile
  reloadFrom : watcher.reloadFrom = some origin

variable {options : BuildOptions} {explicit : List Path} {configFile : Option Path}

theorem AtRest.kept {kept : Watcher} (h : AtRest options explicit configFile origin watcher)
    (hkept : kept = watcher ∨ kept = watcher.forgetful) :
    AtRest options explicit configFile origin kept := by
  rcases hkept with rfl | rfl
  · exact h
  · exact ⟨h.coordination, h.options_eq, h.explicitPaths, h.configFile_eq, h.reloadFrom⟩

theorem AtRest.equipped {about : Watcher} {wants : Bool}
    (h : AtRest options explicit configFile origin watcher)
    (hequipped : watcher.equipped origin tree wants = .ok about) :
    AtRest options explicit configFile origin about := by
  unfold Watcher.equipped at hequipped
  split at hequipped
  · split at hequipped
    · cases hequipped
      exact ⟨h.coordination, h.options_eq, h.explicitPaths, h.configFile_eq, h.reloadFrom⟩
    · cases hequipped
    · cases hequipped
      exact h
  · cases hequipped
    exact h

theorem AtRest.ready {about : Watcher} (h : AtRest options explicit configFile origin watcher)
    (hready : watcher.ready origin tree call = .ok about) :
    AtRest options explicit configFile origin about := by
  unfold Watcher.ready at hready
  split at hready
  · cases hready
  · rename_i hasked
    exact (h.kept (kept_of_asked hasked)).equipped hready

/-- A call leaves a watcher at rest, also if it breaks down. -/
theorem AtRest.answer (h : AtRest options explicit configFile origin watcher) (tree : FileTree)
    (call : Call) : AtRest options explicit configFile origin (watcher.answer tree call).watcher := by
  cases hready : watcher.ready origin tree call with
  | error cause =>
    obtain ⟨kept, log, hkept, hanswer⟩ := answer_of_ready_error h.coordination h.reloadFrom hready
    rw [hanswer]
    exact h.kept hkept
  | ok about =>
    obtain ⟨log, hanswer⟩ := answer_of_ready h.coordination h.reloadFrom hready
    obtain ⟨failures, hbuilt⟩ := watcher_buildOnce about tree
    have habout := h.ready hready
    rw [hanswer]
    change AtRest options explicit configFile origin (about.buildOnce tree []).watcher
    rw [hbuilt]
    exact ⟨habout.coordination, habout.options_eq, habout.explicitPaths, habout.configFile_eq,
      habout.reloadFrom⟩

theorem AtRest.after (h : AtRest options explicit configFile origin watcher)
    (history : List (FileTree × Call)) :
    AtRest options explicit configFile origin (watcher.after history) := by
  induction history generalizing watcher with
  | nil => exact h
  | cons made rest ih => exact ih (h.answer made.1 made.2)

/-- A call breaks down: a changed path cannot be looked for or compared, the settings break the
reader, or the build breaks down. -/
inductive BreaksDown (watcher : Watcher) (origin : ConfigOrigin) (tree : FileTree) (call : Call)
    (cause : Breakdown) : Prop where
  | asking (h : watcher.asked tree call = .error cause)
  | settings (kept : Watcher) (hasked : watcher.asked tree call = .ok (kept, true))
      (h : origin.BreaksDown tree cause)
  | building (about : Watcher) (hready : watcher.ready origin tree call = .ok about)
      (h : Pipeline.BreaksDown Output.noRefusals about.pipeline tree about.options cause)

/-- The settings that a watcher is about to build with.  Where loading fails, the watcher is as it
was, with its pipeline and the paths that it looks at. -/
structure Equipped (origin : ConfigOrigin) (tree : FileTree) (kept : Watcher) (wants : Bool)
    (about : Watcher) : Prop where
  unasked : wants = false → about = kept
  unloadable : wants = true → ∀ failure, origin.load tree = .error failure → about = kept
  loaded : wants = true → ∀ config, origin.load tree = .ok config → about = kept.withConfig config

theorem equipped_eq_ok {kept about : Watcher} {wants : Bool}
    (h : kept.equipped origin tree wants = .ok about) : Equipped origin tree kept wants about := by
  unfold equipped at h
  cases wants with
  | false =>
    cases h
    exact ⟨fun _ => rfl, nofun, nofun⟩
  | true =>
    rw [if_pos rfl] at h
    split at h
    · rename_i config hload
      cases h
      refine ⟨nofun, fun _ => ?_, fun _ => ?_⟩
      · rw [hload]
        exact nofun
      · intro config' hload'
        rw [hload] at hload'
        cases hload'
        rfl
    · cases h
    · rename_i hload
      cases h
      refine ⟨nofun, fun _ _ _ => rfl, fun _ => ?_⟩
      rw [hload]
      exact nofun

/-- What one build of a watcher comes to. -/
structure Built (about : Watcher) (tree : FileTree) (answer : Answer) : Prop where
  builds : answer.watcher.builds = about.builds + 1
  pipeline : answer.watcher.pipeline = (about.pipeline.run tree about.options).pipeline
  tree_eq : answer.tree = (about.pipeline.run tree about.options).tree
  /-- A failed build counts, and leaves the files as they were. -/
  failed : ∀ failure, (about.pipeline.run tree about.options).result = .error failure →
    answer.watcher.failures = about.failures + 1 ∧
      ∀ location, answer.tree.fileAt? location = tree.fileAt? location
  succeeded : ∀ report, (about.pipeline.run tree about.options).result = .ok report →
    answer.watcher.failures = about.failures
  poller : answer.watcher.poller = about.poller
  reloads : answer.watcher.reloads = about.reloads

theorem Built.withLog {about : Watcher} {answer : Answer} (h : Built about tree answer)
    (log : List LogLine) : Built about tree (answer.withLog log) :=
  ⟨h.builds, h.pipeline, h.tree_eq, h.failed, h.succeeded, h.poller, h.reloads⟩

/-- A build that does not break down is counted, and as a failure if it fails. -/
theorem built_buildOnce (h : (watcher.buildOnce tree []).result = .ok ()) :
    Built watcher tree (watcher.buildOnce tree []) := by
  cases hrun : (watcher.pipeline.run tree watcher.options).result with
  | ok report =>
    obtain ⟨log, hbuild⟩ := buildOnce_of_ok hrun
    rw [hbuild]
    refine ⟨rfl, rfl, rfl, ?_, fun _ _ => rfl, rfl, rfl⟩
    rw [hrun]
    exact nofun
  | error failure =>
    have hfailure (cause : Breakdown) : failure ≠ .breakdown cause := by
      rintro rfl
      obtain ⟨log, hbuild⟩ := buildOnce_of_breakdown hrun
      rw [hbuild] at h
      cases h
    obtain ⟨log, hbuild⟩ := buildOnce_of_failure hrun hfailure
    rw [hbuild]
    refine ⟨rfl, rfl, rfl, ?_, ?_, rfl, rfl⟩
    · intro _ _
      exact ⟨rfl, Pipeline.fileAt?_runUnder_of_error hrun⟩
    · rw [hrun]
      exact nofun

/-- A call that does not break down settles what to build with, and builds. -/
theorem AtRest.built (h : AtRest options explicit configFile origin watcher)
    (hok : (watcher.answer tree call).result = .ok ()) :
    ∃ kept wants about, watcher.asked tree call = .ok (kept, wants) ∧
      Equipped origin tree kept wants about ∧ Built about tree (watcher.answer tree call) := by
  cases hready : watcher.ready origin tree call with
  | error cause =>
    obtain ⟨kept, log, _, hanswer⟩ := answer_of_ready_error h.coordination h.reloadFrom hready
    rw [hanswer] at hok
    cases hok
  | ok about =>
    obtain ⟨log, hanswer⟩ := answer_of_ready h.coordination h.reloadFrom hready
    rw [hanswer] at hok ⊢
    have hbuilt : Built about tree (about.buildOnce tree []) := built_buildOnce hok
    unfold Watcher.ready at hready
    split at hready
    · cases hready
    · rename_i kept wants hasked
      exact ⟨kept, wants, about, hasked, equipped_eq_ok hready, hbuilt.withLog log⟩

end DesignTokens.Watcher
