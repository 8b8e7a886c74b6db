import DesignTokens.Proofs.Watch.Coordination
import DesignTokens.Watch.Watcher
/-!
# A rebuild is a run of sections

What a watcher does for one caller, while the triggers of others come in, is a run of the sections
of that caller, with those of the others in between: each finds the lock taken and leaves.  A
rebuild begins where nobody is calling and ends there, with as many builds as the watcher counts.
So rebuilds and other calls make up runs together, and in these no trigger is lost.
-/

set_option autoImplicit false

namespace DesignTokens

namespace Coordination

variable {caller next : Caller} {shared after : Coordination} {act : Act}

/-! ## Runs of one caller -/

/-- One caller stands somewhere, and all others are away. -/
def World.solo (caller : Caller) (shared : Coordination) : World :=
  ⟨fun number => if number = 0 then caller else .away, shared⟩

theorem World.idle_solo_away (shared : Coordination) : (World.solo .away shared).Idle := by
  intro number
  unfold solo
  simp only
  split
  · rfl
  · rfl

/-- A world where nobody is calling and no flag is raised is as at the start. -/
theorem World.Idle.eq_start {world : World} (h : world.Idle) (hquiet : world.shared = .quiet) :
    world = World.start := by
  obtain ⟨callers, shared⟩ := world
  have hcallers : callers = fun _ => .away := funext h
  rw [hcallers, show shared = .quiet from hquiet]
  rfl

theorem World.solo_away_quiet : World.solo .away .quiet = World.start := by
  unfold solo start
  congr 1
  funext number
  split
  · rfl
  · rfl

theorem Run.append {before middle after : World} {first second : List (Nat × Act)}
    (hfirst : Run before first middle) (hsecond : Run middle second after) :
    Run before (first ++ second) after := by
  induction hsecond with
  | refl => rwa [List.append_nil]
  | step _ last ih =>
    rw [← List.append_assoc]
    exact ih.step last

/-- Some sections lead from one world to another.  So many builds begin in them, and they break down
or do not. -/
def StepsTo (before after : World) (builds : Nat) (breaks : Bool) : Prop :=
  ∃ acts, Run before acts after ∧ acts.countP (·.2.isBuild) = builds ∧
    acts.any (fun act => decide (act.2 = .breakDown)) = breaks

theorem StepsTo.trans {before middle after : World} {m n : Nat} {a b : Bool}
    (hfirst : StepsTo before middle m a) (hsecond : StepsTo middle after n b) :
    StepsTo before after (m + n) (a || b) := by
  obtain ⟨first, hrun, rfl, rfl⟩ := hfirst
  obtain ⟨second, hrun', rfl, rfl⟩ := hsecond
  exact ⟨first ++ second, hrun.append hrun', List.countP_append, List.any_append⟩

/-- A section of the one caller. -/
theorem stepsTo_of_section (h : Section caller shared act next after) :
    StepsTo (.solo caller shared) (.solo next after) (if act.isBuild then 1 else 0)
      (act = .breakDown) := by
  have hworld : (World.solo caller shared).afterSection 0 next after = .solo next after := by
    unfold World.afterSection World.solo
    congr 1
    funext number
    split
    · rfl
    · rename_i hnumber
      exact if_neg hnumber
  have hstep : Step (.solo caller shared) (0, act) (.solo next after) := by
    rw [← hworld]
    exact .of (.solo caller shared) 0 act next after h
  refine ⟨[(0, act)], (Run.refl _).step hstep, ?_, ?_⟩
  · rw [List.countP_singleton]
  · rw [List.any_cons, List.any_nil, Bool.or_false]

/-- A trigger of another caller that finds the lock taken. -/
theorem stepsTo_announce (hlocked : shared.locked = true) (reload : Bool) :
    StepsTo (.solo caller shared) (.solo caller (shared.announce reload)) 0 false := by
  let triggered := (World.solo caller shared).afterSection 1 .trying (shared.announce reload)
  have hfirst : Step (.solo caller shared) (1, .trigger reload) triggered :=
    .of (.solo caller shared) 1 _ _ _ (.trigger shared reload)
  have hsecond : Step triggered (1, .other)
      (triggered.afterSection 1 .away (shared.announce reload)) :=
    .of triggered 1 _ _ _ (.locked _ (tryLock_eq_none_iff.mpr hlocked))
  have hworld : triggered.afterSection 1 .away (shared.announce reload) =
      .solo caller (shared.announce reload) := by
    unfold triggered World.afterSection World.solo
    congr 1
    funext number
    by_cases hnumber : number = 1
    · subst hnumber
      rfl
    · simp only [if_neg hnumber]
  rw [hworld] at hsecond
  exact ⟨_, ((Run.refl _).step hfirst).step hsecond, rfl, rfl⟩

/-- Any triggers of others that find the lock taken. -/
theorem stepsTo_announcements (hlocked : shared.locked = true) (arrivals : List Bool) :
    StepsTo (.solo caller shared) (.solo caller (arrivals.foldl announce shared)) 0 false := by
  induction arrivals generalizing shared with
  | nil => exact ⟨[], .refl _, rfl, rfl⟩
  | cons first later ih => exact (stepsTo_announce hlocked first).trans (ih hlocked)

theorem locked_announcements (arrivals : List Bool) :
    (arrivals.foldl announce shared).locked = shared.locked := by
  induction arrivals generalizing shared with
  | nil => rfl
  | cons first later ih => exact ih

end Coordination

namespace Watcher

open Coordination

variable {watcher : Watcher} {tree : FileTree}

/-! ## The parts of a rebuild -/

/-- What a watcher does for a caller is a run from where the caller stood to where it stands, with
the builds that are counted; the run breaks down exactly if the watcher does. -/
def Performs (watcher : Watcher) (start : Caller) (answer : Answer) (finish : Caller) : Prop :=
  ∃ builds, answer.watcher.builds = watcher.builds + builds ∧
    StepsTo (.solo start watcher.coordination) (.solo finish answer.watcher.coordination) builds
      !answer.result.isOk

theorem coordination_buildOnce (watcher : Watcher) (tree : FileTree) (arrivals : List Bool) :
    (watcher.buildOnce tree arrivals).watcher.coordination =
      arrivals.foldl announce watcher.coordination ∧
      (watcher.buildOnce tree arrivals).watcher.builds = watcher.builds + 1 := by
  unfold buildOnce
  simp only
  split
  · exact ⟨rfl, rfl⟩
  · exact ⟨rfl, rfl⟩
  · exact ⟨rfl, rfl⟩

theorem coordination_reload (watcher : Watcher) (tree : FileTree) :
    (watcher.reload tree).watcher.coordination = watcher.coordination ∧
      (watcher.reload tree).watcher.builds = watcher.builds := by
  unfold reload
  split
  · exact ⟨rfl, rfl⟩
  · split
    · exact ⟨rfl, rfl⟩
    · exact ⟨rfl, rfl⟩
    · exact ⟨rfl, rfl⟩

/-- Where a caller stands after its round. -/
def afterRound (answer : Answer) : Caller :=
  if answer.result.isOk then .taking else .failing

/-- While it builds, others leave their triggers to the caller. -/
theorem performs_buildOnce (watcher : Watcher) (hlocked : watcher.coordination.locked = true)
    (tree : FileTree) (arrivals : List Bool) :
    watcher.Performs .beforeBuild (watcher.buildOnce tree arrivals)
      (afterRound (watcher.buildOnce tree arrivals)) := by
  obtain ⟨hcoordination, hbuilds⟩ := coordination_buildOnce watcher tree arrivals
  refine ⟨1, hbuilds, ?_⟩
  rw [hcoordination]
  have hbuilding : StepsTo (.solo .beforeBuild watcher.coordination)
      (.solo .building (arrivals.foldl announce watcher.coordination)) 1 false :=
    (stepsTo_of_section (.beginBuild _)).trans (stepsTo_announcements hlocked arrivals)
  unfold afterRound
  cases (watcher.buildOnce tree arrivals).result with
  | ok done => exact hbuilding.trans (stepsTo_of_section (.endBuild _))
  | error cause => exact hbuilding.trans (stepsTo_of_section (.buildBreaks _))

theorem performs_serve (watcher : Watcher) (hlocked : watcher.coordination.locked = true)
    (tree : FileTree) (wants : Bool) (arrivals : List Bool) :
    watcher.Performs (if wants then .beforeReload else .beforeBuild)
      (watcher.serve tree wants arrivals) (afterRound (watcher.serve tree wants arrivals)) := by
  cases wants with
  | false => exact performs_buildOnce watcher hlocked tree arrivals
  | true =>
    obtain ⟨hcoordination, hbuilds⟩ := coordination_reload watcher tree
    have hreloading : StepsTo (.solo .beforeReload watcher.coordination)
        (.solo .reloading watcher.coordination) 0 false := stepsTo_of_section (.beginReload _)
    unfold serve
    simp only [if_true]
    generalize watcher.reload tree = reloaded at hcoordination hbuilds
    obtain ⟨result, about, after, log⟩ := reloaded
    simp only at hcoordination hbuilds
    cases result with
    | error cause =>
      refine ⟨0, hbuilds, ?_⟩
      simp only
      rw [hcoordination]
      exact hreloading.trans (stepsTo_of_section (.reloadBreaks _))
    | ok done =>
      have hlocked' : about.coordination.locked = true := by
        rw [hcoordination]
        exact hlocked
      obtain ⟨builds, hcount, hsteps⟩ := performs_buildOnce about hlocked' after arrivals
      have hready : StepsTo (.solo .beforeReload watcher.coordination)
          (.solo .beforeBuild about.coordination) 0 false := by
        rw [hcoordination]
        exact hreloading.trans (stepsTo_of_section (.endReload _))
      have hserved := hready.trans hsteps
      rw [Nat.zero_add, Bool.false_or] at hserved
      rw [hbuilds] at hcount
      exact ⟨builds, hcount, hserved⟩

/-- A serving raises the flags of the triggers that come meanwhile, and no others. -/
theorem coordination_serve (watcher : Watcher) (tree : FileTree) (wants : Bool)
    (arrivals : List Bool) (h : (watcher.serve tree wants arrivals).result = .ok ()) :
    (watcher.serve tree wants arrivals).watcher.coordination =
      arrivals.foldl announce watcher.coordination := by
  cases wants with
  | false => exact (coordination_buildOnce watcher tree arrivals).1
  | true =>
    have hcoordination := (coordination_reload watcher tree).1
    unfold serve at h ⊢
    simp only [if_true] at h ⊢
    generalize watcher.reload tree = reloaded at h hcoordination ⊢
    obtain ⟨result, about, after, log⟩ := reloaded
    simp only at hcoordination
    cases result with
    | error cause => cases h
    | ok done =>
      simp only
      rw [(coordination_buildOnce about after arrivals).1, hcoordination]

/-- Where a caller stands when no flag is raised any more. -/
def afterRounds (answer : Answer) : Caller :=
  if answer.result.isOk then .releasing else .failing

/-- A caller takes the flags. -/
theorem stepsTo_take {shared taken : Coordination} {wants : Bool}
    (h : shared.take = some (wants, taken)) :
    StepsTo (.solo .taking shared) (.solo (if wants then .beforeReload else .beforeBuild) taken) 0
      false := by
  cases wants with
  | false => exact stepsTo_of_section (.buildOnly _ _ h)
  | true => exact stepsTo_of_section (.reloadFirst _ _ h)

theorem flags_of_take {shared taken : Coordination} {wants : Bool}
    (h : shared.take = some (wants, taken)) :
    taken.pending = false ∧ taken.locked = shared.locked := by
  obtain ⟨_, _, rfl⟩ := take_eq_some_iff.mp h
  exact ⟨rfl, rfl⟩

/-- A caller takes the flags and serves one round. -/
theorem performs_round {taken : Coordination} {wants : Bool}
    (hlocked : watcher.coordination.locked = true)
    (htake : watcher.coordination.take = some (wants, taken)) (tree : FileTree)
    (arrivals : List Bool) :
    let served := { watcher with coordination := taken }.serve tree wants arrivals
    watcher.Performs .taking served (afterRound served) := by
  have hlocked' : taken.locked = true := (flags_of_take htake).2.trans hlocked
  obtain ⟨builds, hcount, hsteps⟩ := performs_serve
    { watcher with coordination := taken } hlocked' tree wants arrivals
  have hround := (stepsTo_take htake).trans hsteps
  rw [Nat.zero_add, Bool.false_or] at hround
  exact ⟨builds, hcount, hround⟩

/-- After its last round, a caller finds no flag raised. -/
theorem Performs.last {start : Caller} {answer : Answer}
    (h : watcher.Performs start answer (afterRound answer))
    (hpending : answer.result = .ok () → answer.watcher.coordination.pending = false) :
    watcher.Performs start answer (afterRounds answer) := by
  obtain ⟨builds, hcount, hsteps⟩ := h
  refine ⟨builds, hcount, ?_⟩
  unfold afterRound at hsteps
  unfold afterRounds
  cases hresult : answer.result with
  | ok done =>
    rw [hresult] at hsteps
    exact hsteps.trans (stepsTo_of_section (.nothing _ (take_eq_none_iff.mpr (hpending hresult))))
  | error cause =>
    rw [hresult] at hsteps
    exact hsteps

/-- A caller serves rounds until no flag is raised. -/
theorem performs_serveAll (watcher : Watcher) (hlocked : watcher.coordination.locked = true)
    (tree : FileTree) (arrivals : List (List Bool)) :
    watcher.Performs .taking (watcher.serveAll tree arrivals)
        (afterRounds (watcher.serveAll tree arrivals)) ∧
      ((watcher.serveAll tree arrivals).result = .ok () →
        (watcher.serveAll tree arrivals).watcher.coordination.pending = false) := by
  induction arrivals generalizing watcher tree with
  | nil =>
    unfold serveAll
    cases htake : watcher.coordination.take with
    | none =>
      exact ⟨⟨0, rfl, stepsTo_of_section (.nothing _ htake)⟩, fun _ => take_eq_none_iff.mp htake⟩
    | some flags =>
      obtain ⟨wants, taken⟩ := flags
      let served := { watcher with coordination := taken }.serve tree wants []
      have hnone (h : served.result = .ok ()) : served.watcher.coordination.pending = false := by
        rw [coordination_serve { watcher with coordination := taken } tree wants [] h]
        exact (flags_of_take htake).1
      exact ⟨(performs_round hlocked htake tree []).last hnone, hnone⟩
  | cons first later ih =>
    unfold serveAll
    cases htake : watcher.coordination.take with
    | none =>
      exact ⟨⟨0, rfl, stepsTo_of_section (.nothing _ htake)⟩, fun _ => take_eq_none_iff.mp htake⟩
    | some flags =>
      obtain ⟨wants, taken⟩ := flags
      have hround := performs_round hlocked htake tree first
      have hserved := coordination_serve { watcher with coordination := taken } tree wants first
      simp only at hround hserved ⊢
      generalize { watcher with coordination := taken }.serve tree wants first = served
        at hround hserved ⊢
      obtain ⟨result, about, after, log⟩ := served
      cases result with
      | error cause => exact ⟨hround.last nofun, nofun⟩
      | ok done =>
        have hheld : about.coordination.locked = true := by
          rw [hserved rfl, locked_announcements, (flags_of_take htake).2]
          exact hlocked
        obtain ⟨⟨later', hcount', hsteps'⟩, hpending⟩ := ih about hheld after
        obtain ⟨builds, hcount, hsteps⟩ := hround
        refine ⟨⟨builds + later', ?_, hsteps.trans hsteps'⟩, hpending⟩
        simp only at hcount ⊢
        rw [hcount', hcount, Nat.add_assoc]

/-! ## A whole rebuild -/

/-- Whatever comes in meanwhile, and wherever it breaks down: a rebuild is a run of sections, from
where nobody is calling to where nobody is calling. -/
theorem performs_rebuild (watcher : Watcher) (tree : FileTree) (wants : Bool)
    (arrivals : List (List Bool)) :
    watcher.Performs .away (watcher.rebuild tree wants arrivals) .away := by
  have htrigger : StepsTo (.solo .away watcher.coordination)
      (.solo .trying (watcher.coordination.announce wants)) 0 false :=
    stepsTo_of_section (.trigger _ wants)
  unfold rebuild
  simp only
  cases hlock : (watcher.coordination.announce wants).tryLock with
  | none => exact ⟨0, rfl, htrigger.trans (stepsTo_of_section (.locked _ hlock))⟩
  | some locked =>
    have hlocked : locked.locked = true := by
      rw [(tryLock_eq_some_iff.mp hlock).2]
    obtain ⟨⟨builds, hcount, hsteps⟩, hpending⟩ := performs_serveAll
      { watcher with coordination := locked } hlocked tree arrivals
    have hlocking : StepsTo (.solo .away watcher.coordination) (.solo .taking locked) 0 false :=
      htrigger.trans (stepsTo_of_section (.lock _ _ hlock))
    have hserved := hlocking.trans hsteps
    rw [Nat.zero_add, Bool.false_or] at hserved
    unfold afterRounds at hserved
    refine ⟨builds, hcount, ?_⟩
    simp only
    generalize { watcher with coordination := locked }.serveAll tree arrivals = served
      at hpending hserved ⊢
    cases hresult : served.result with
    | error cause =>
      rw [hresult] at hserved
      exact hserved.trans (stepsTo_of_section (.giveUp _))
    | ok done =>
      rw [hresult] at hserved
      have hreleased := hserved.trans (stepsTo_of_section (.release _))
      exact hreleased.trans (stepsTo_of_section (.leave _ (hpending hresult)))

/-- A rebuild of a watcher at rest is a run from the start. -/
theorem exists_run_of_rebuild (hquiet : watcher.coordination = .quiet) (tree : FileTree)
    (wants : Bool) (arrivals : List (List Bool)) :
    let answer := watcher.rebuild tree wants arrivals
    ∃ acts, Run .start acts (.solo .away answer.watcher.coordination) ∧
      answer.watcher.builds = watcher.builds + acts.countP (·.2.isBuild) ∧
      (answer.result = .ok () → ∀ act ∈ acts, act.2 ≠ .breakDown) := by
  obtain ⟨builds, hcount, acts, hrun, rfl, hbreaks⟩ := performs_rebuild watcher tree wants arrivals
  rw [hquiet, World.solo_away_quiet] at hrun
  refine ⟨acts, hrun, hcount, ?_⟩
  intro hok act hact hbroken
  have hnone : acts.any (fun act => decide (act.2 = .breakDown)) = false := by
    rw [hbreaks, hok]
    rfl
  rw [List.any_eq_false] at hnone
  exact hnone act hact (decide_eq_true hbroken)

/-- Whatever triggers come in meanwhile, a rebuild that does not break down leaves no flag raised. -/
theorem quiet_of_rebuild (hquiet : watcher.coordination = .quiet) {wants : Bool}
    {arrivals : List (List Bool)} (hok : (watcher.rebuild tree wants arrivals).result = .ok ()) :
    (watcher.rebuild tree wants arrivals).watcher.coordination = .quiet := by
  obtain ⟨acts, hrun, _, hfine⟩ := exists_run_of_rebuild hquiet tree wants arrivals
  exact (hrun.invariant (hfine hok)).quiet_of_idle (World.idle_solo_away _)

/-- A run goes on with what a watcher does: it has as many builds more as the watcher counts, and
unless the watcher breaks down, no section does and no flag stays raised. -/
def Continues (watcher : Watcher) (acts : List (Nat × Act)) (answer : Answer) : Prop :=
  ∃ more, Run .start (acts ++ more) (.solo .away answer.watcher.coordination) ∧
    answer.watcher.builds = watcher.builds + more.countP (·.2.isBuild) ∧
    (answer.result = .ok () →
      (∀ act ∈ more, act.2 ≠ .breakDown) ∧ answer.watcher.coordination = .quiet)

/-- When nobody is calling, a run goes on with any rebuild. -/
theorem continues_rebuild {acts : List (Nat × Act)} {world : World} (hrun : Run .start acts world)
    (hidle : world.Idle) (hquiet : world.shared = .quiet)
    (hshared : watcher.coordination = world.shared) (tree : FileTree) (wants : Bool)
    (arrivals : List (List Bool)) :
    watcher.Continues acts (watcher.rebuild tree wants arrivals) := by
  rw [hquiet] at hshared
  rw [hidle.eq_start hquiet] at hrun
  obtain ⟨more, hmore, hbuilds, hfine⟩ := exists_run_of_rebuild hshared tree wants arrivals
  exact ⟨more, hrun.append hmore, hbuilds, fun hok => ⟨hfine hok, quiet_of_rebuild hshared hok⟩⟩

end Watcher

/-! ## Runs in general -/

namespace Coordination

/-- Whatever the callers do, and in whatever order, every trigger is served, once and by one caller
at a time.  When nobody is calling, a run goes on with any rebuild of a watcher. -/
theorem run_coordinated {acts : List (Nat × Act)} {world : World} (h : Run .start acts world)
    (hfine : ∀ act ∈ acts, act.2 ≠ .breakDown) :
    Coordinated acts world ∧ (world.Idle → ∀ (watcher : Watcher) (tree : FileTree) (wants : Bool)
      (arrivals : List (List Bool)), watcher.coordination = world.shared →
        watcher.Continues acts (watcher.rebuild tree wants arrivals)) := by
  have hcoordinated := h.coordinated hfine
  refine ⟨hcoordinated, fun hidle watcher tree wants arrivals hshared => ?_⟩
  exact Watcher.continues_rebuild h hidle (hcoordinated.quiet hidle) hshared tree wants arrivals

/-- Two callers: while the first one builds, the second one asks for a reload and leaves it to the
first. -/
def lateReload : List (Nat × Act) :=
  [(0, .trigger false), (0, .other), (0, .take false), (0, .beginBuild), (1, .trigger true),
    (1, .other), (0, .endBuild), (0, .take true), (0, .beginReload), (0, .endReload),
    (0, .beginBuild), (0, .endBuild), (0, .other), (0, .other), (0, .other)]

theorem lateReload_coordinated :
    ∃ world, Run .start lateReload world ∧ world.Idle ∧ Coordinated lateReload world ∧
      ∀ (watcher : Watcher) (tree : FileTree) (wants : Bool) (arrivals : List (List Bool)),
        watcher.coordination = world.shared →
          watcher.Continues lateReload (watcher.rebuild tree wants arrivals) := by
  have hrun :=
    (((((((((((((((Run.refl World.start).step
      (.of _ 0 _ _ _ (.trigger _ false))).step
      (.of _ 0 _ _ _ (.lock _ _ rfl))).step
      (.of _ 0 _ _ _ (.buildOnly _ _ rfl))).step
      (.of _ 0 _ _ _ (.beginBuild _))).step
      (.of _ 1 _ _ _ (.trigger _ true))).step
      (.of _ 1 _ _ _ (.locked _ rfl))).step
      (.of _ 0 _ _ _ (.endBuild _))).step
      (.of _ 0 _ _ _ (.reloadFirst _ _ rfl))).step
      (.of _ 0 _ _ _ (.beginReload _))).step
      (.of _ 0 _ _ _ (.endReload _))).step
      (.of _ 0 _ _ _ (.beginBuild _))).step
      (.of _ 0 _ _ _ (.endBuild _))).step
      (.of _ 0 _ _ _ (.nothing _ rfl))).step
      (.of _ 0 _ _ _ (.release _))).step
      (.of _ 0 _ _ _ (.leave _ rfl))
  obtain ⟨hcoordinated, hcontinues⟩ := run_coordinated hrun (by decide)
  suffices hidle : World.Idle _ from ⟨_, hrun, hidle, hcoordinated, hcontinues hidle⟩
  -- The last sections of both callers lead away, and nobody else has called.
  rintro (_ | _ | caller) <;> rfl

end Coordination

end DesignTokens
