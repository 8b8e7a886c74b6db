import DesignTokens.Watch.Coordination
import Mathlib.Data.List.DropRight
/-!
# No trigger is lost

Callers may take their sections in any order.  Whatever the order, at most one of them reloads or
builds at a time; the flags that are taken stand for the triggers since they were taken before; what
is done once they are taken is one round, a reload if one is asked for and a build; and when the
last caller has left, no flag is raised, so that every trigger has had its round.

What a section does to the caller, to the flags and to the lock is told once for each of the three.
All that holds of runs is derived from that, section by section.
-/

set_option autoImplicit false

namespace DesignTokens.Coordination

/-! ## Rounds -/

namespace Act

/-- Raises the flag for a rebuild. -/
def isTrigger : Act → Bool
  | .trigger _ => true
  | _ => false

/-- Raises the flag for a reload. -/
def asksReload : Act → Bool
  | .trigger reload => reload
  | _ => false

/-- Takes the flags. -/
def isTake : Act → Bool
  | .take _ => true
  | _ => false

/-- Begins a build. -/
def isBuild : Act → Bool
  | .beginBuild => true
  | _ => false

/-- Is part of a round. -/
def isWork : Act → Bool
  | .take _ | .beginReload | .endReload | .beginBuild | .endBuild => true
  | .trigger _ | .breakDown | .other => false

/-- The round that an act opens: whoever takes the flags reloads if this is asked for, and then
builds. -/
def round : Act → List Act
  | .take true => [.take true, .beginReload, .endReload, .beginBuild, .endBuild]
  | .take false => [.take false, .beginBuild, .endBuild]
  | _ => []

end Act

/-- The round of a caller that takes the flags. -/
def roundOf (caller : Nat) (reload : Bool) : List (Nat × Act) :=
  (Act.take reload).round.map (caller, ·)

/-- The acts that are part of rounds. -/
def work (acts : List (Nat × Act)) : List (Nat × Act) :=
  acts.filter (·.2.isWork)

/-- The rounds that were opened, one after the other. -/
def rounds (acts : List (Nat × Act)) : List (Nat × Act) :=
  acts.flatMap fun act => act.2.round.map (act.1, ·)

/-- The acts since the flags were last taken. -/
def sinceTake (acts : List (Nat × Act)) : List (Nat × Act) :=
  acts.rtakeWhile fun act => !act.2.isTake

/-! ## One section -/

/-- Whether a caller holds the build lock. -/
def Caller.holdsLock : Caller → Bool
  | .away | .trying | .rechecking => false
  | .taking | .beforeReload | .reloading | .beforeBuild | .building | .releasing | .failing => true

/-- Whether a caller is reloading or building. -/
def Caller.isWorking : Caller → Bool
  | .reloading | .building => true
  | _ => false

/-- What a caller has still to do of its round. -/
def Caller.left : Caller → List Act
  | .beforeReload => [.beginReload, .endReload, .beginBuild, .endBuild]
  | .reloading => [.endReload, .beginBuild, .endBuild]
  | .beforeBuild => [.beginBuild, .endBuild]
  | .building => [.endBuild]
  | _ => []

theorem Caller.left_of_not_holdsLock {caller : Caller} (h : caller.holdsLock = false) :
    caller.left = [] := by
  cases caller <;> first | rfl | cases h

theorem Caller.holdsLock_of_isWorking {caller : Caller} (h : caller.isWorking = true) :
    caller.holdsLock = true := by
  cases caller <;> first | rfl | cases h

namespace Section

variable {caller next : Caller} {shared after : Coordination} {act : Act}

/-- What is left of a round and what an act opens are done by the act or left after it. -/
theorem left_append_round (h : Section caller shared act next after) (hfine : act ≠ .breakDown) :
    caller.left ++ act.round = (if act.isWork then [act] else []) ++ next.left := by
  cases h with
  | reloadBreaks => exact absurd rfl hfine
  | buildBreaks => exact absurd rfl hfine
  | _ => rfl

/-- A caller without the lock does no part of a round. -/
theorem idle_of_not_holdsLock (h : Section caller shared act next after)
    (hfree : caller.holdsLock = false) :
    act.isWork = false ∧ act.round = [] ∧ next.left = [] := by
  cases h <;> first | exact ⟨rfl, rfl, rfl⟩ | cases hfree

/-- The lock stays with whom it is, or the caller takes it when it is free, or gives it back. -/
theorem lock_cases (h : Section caller shared act next after) :
    (next.holdsLock = caller.holdsLock ∧ after.locked = shared.locked) ∨
      (caller.holdsLock = false ∧ shared.locked = false ∧ next.holdsLock = true ∧
        after.locked = true) ∨
      (caller.holdsLock = true ∧ next.holdsLock = false ∧ after.locked = false) := by
  cases h with
  | lock _ _ h =>
    obtain ⟨hfree, rfl⟩ := tryLock_eq_some_iff.mp h
    exact .inr (.inl ⟨rfl, hfree, rfl, rfl⟩)
  | reloadFirst _ _ h =>
    obtain ⟨_, _, rfl⟩ := take_eq_some_iff.mp h
    exact .inl ⟨rfl, rfl⟩
  | buildOnly _ _ h =>
    obtain ⟨_, _, rfl⟩ := take_eq_some_iff.mp h
    exact .inl ⟨rfl, rfl⟩
  | release => exact .inr (.inr ⟨rfl, rfl, rfl⟩)
  | giveUp => exact .inr (.inr ⟨rfl, rfl, rfl⟩)
  | _ => exact .inl ⟨rfl, rfl⟩

/-- A trigger raises flags, a take lowers them, and nothing else does either. -/
theorem flags (h : Section caller shared act next after) :
    after.pending = (!act.isTake && (shared.pending || act.isTrigger)) ∧
      after.reloadPending = (!act.isTake && (shared.reloadPending || act.asksReload)) := by
  cases h with
  | trigger _ reload =>
    exact ⟨(Bool.or_true _).symm, rfl⟩
  | lock _ _ h =>
    obtain ⟨_, rfl⟩ := tryLock_eq_some_iff.mp h
    exact ⟨(Bool.or_false _).symm, (Bool.or_false _).symm⟩
  | reloadFirst _ _ h =>
    obtain ⟨_, _, rfl⟩ := take_eq_some_iff.mp h
    exact ⟨rfl, rfl⟩
  | buildOnly _ _ h =>
    obtain ⟨_, _, rfl⟩ := take_eq_some_iff.mp h
    exact ⟨rfl, rfl⟩
  | _ => exact ⟨(Bool.or_false _).symm, (Bool.or_false _).symm⟩

/-- The flags are taken where a rebuild is wanted, by a caller with the lock that has nothing left
to do. -/
theorem of_take {reload : Bool} (h : Section caller shared (.take reload) next after) :
    caller = .taking ∧ shared.pending = true ∧ reload = shared.reloadPending := by
  cases h with
  | reloadFirst _ _ h =>
    obtain ⟨hpending, hreload, _⟩ := take_eq_some_iff.mp h
    exact ⟨rfl, hpending, hreload⟩
  | buildOnly _ _ h =>
    obtain ⟨hpending, hreload, _⟩ := take_eq_some_iff.mp h
    exact ⟨rfl, hpending, hreload⟩

/-- A caller leaves only where another one has the lock or no rebuild is wanted, unless something
has broken down. -/
theorem of_away (h : Section caller shared act .away after) (hfine : caller ≠ .failing) :
    caller.holdsLock = false ∧ after = shared ∧
      (shared.locked = true ∨ shared.pending = false) := by
  cases h with
  | locked _ h => exact ⟨rfl, rfl, .inl (tryLock_eq_none_iff.mp h)⟩
  | leave _ h => exact ⟨rfl, rfl, .inr h⟩
  | giveUp => exact absurd rfl hfine

/-- Something breaks down only by an act of its own. -/
theorem ne_failing (h : Section caller shared act next after) (hfine : act ≠ .breakDown) :
    next ≠ .failing := by
  cases h with
  | reloadBreaks => exact absurd rfl hfine
  | buildBreaks => exact absurd rfl hfine
  | _ => exact Caller.noConfusion

end Section

/-! ## One step -/

/-- The lock is held by one caller at most, and free if there is none. -/
structure Exclusive (world : World) : Prop where
  only : ∀ first second, (world.callers first).holdsLock = true →
    (world.callers second).holdsLock = true → first = second
  locked_iff : world.shared.locked = true ↔ ∃ caller, (world.callers caller).holdsLock = true

theorem exclusive_start : Exclusive .start := by
  refine ⟨?_, ?_⟩
  · intro first second hfirst
    cases hfirst
  · constructor
    · intro hlocked
      cases hlocked
    · rintro ⟨caller, hholds⟩
      cases hholds

theorem Exclusive.step {before after : World} {act : Nat × Act} (h : Exclusive before)
    (hstep : Step before act after) : Exclusive after := by
  obtain ⟨caller, act, next, shared, hsection⟩ := hstep
  have hothers {other : Nat} (hne : other ≠ caller) :
      (before.afterSection caller next shared).callers other = before.callers other :=
    before.callers_afterSection_of_ne hne next shared
  obtain ⟨hholds, hlocked⟩ | ⟨_, hfree, hholds, hlocked⟩ | ⟨hheld, hholds, hlocked⟩ :=
    hsection.lock_cases
  · -- Everyone holds the lock who has held it, so nothing changes.
    have hsame : ∀ other, ((before.afterSection caller next shared).callers other).holdsLock =
        (before.callers other).holdsLock := by
      intro other
      by_cases hother : other = caller
      · rw [hother, World.callers_afterSection_self, hholds]
      · rw [hothers hother]
    refine ⟨?_, ?_⟩
    · intro first second hfirst hsecond
      rw [hsame] at hfirst hsecond
      exact h.only first second hfirst hsecond
    · rw [World.shared_afterSection, hlocked, h.locked_iff]
      simp only [hsame]
  · have hnone : ∀ other, (before.callers other).holdsLock = false := by
      intro other
      rw [Bool.eq_false_iff]
      intro hother
      rw [h.locked_iff.mpr ⟨other, hother⟩] at hfree
      cases hfree
    have honly : ∀ other, ((before.afterSection caller next shared).callers other).holdsLock = true →
        other = caller := by
      intro other hother
      by_contra hne
      rw [hothers hne, hnone] at hother
      cases hother
    refine ⟨?_, ?_⟩
    · intro first second hfirst hsecond
      rw [honly first hfirst, honly second hsecond]
    · refine iff_of_true hlocked ⟨caller, ?_⟩
      rw [World.callers_afterSection_self]
      exact hholds
  · have hnone : ∀ other,
        ((before.afterSection caller next shared).callers other).holdsLock = false := by
      intro other
      by_cases hother : other = caller
      · rw [hother, World.callers_afterSection_self, hholds]
      · rw [hothers hother, Bool.eq_false_iff]
        intro hother'
        exact hother (h.only other caller hother' hheld)
    refine ⟨?_, ?_⟩
    · intro first second hfirst
      rw [hnone] at hfirst
      cases hfirst
    · rw [World.shared_afterSection, hlocked]
      refine iff_of_false Bool.false_ne_true ?_
      rintro ⟨other, hother⟩
      rw [hnone] at hother
      cases hother

/-- A raised flag has somebody to look at it, as long as nothing has broken down. -/
structure Attended (world : World) : Prop where
  fine : ∀ caller, world.callers caller ≠ .failing
  awake : world.shared.pending = true → ∃ caller, world.callers caller ≠ .away

theorem Attended.step {before after : World} {act : Nat × Act} (h : Attended before)
    (hexclusive : Exclusive before) (hstep : Step before act after) (hfine : act.2 ≠ .breakDown) :
    Attended after := by
  obtain ⟨caller, act, next, shared, hsection⟩ := hstep
  refine ⟨?_, ?_⟩
  · intro other
    by_cases hother : other = caller
    · rw [hother, World.callers_afterSection_self]
      exact hsection.ne_failing hfine
    · rw [before.callers_afterSection_of_ne hother]
      exact h.fine other
  · intro hpending
    rw [World.shared_afterSection] at hpending
    by_cases hnext : next = .away
    · -- A caller that leaves a raised flag leaves it to the one with the lock.
      subst hnext
      obtain ⟨hfree, hsame, hlocked | hlowered⟩ := hsection.of_away (h.fine caller)
      · obtain ⟨holder, hholds⟩ := hexclusive.locked_iff.mp hlocked
        have hne : holder ≠ caller := by
          rintro rfl
          rw [hfree] at hholds
          cases hholds
        refine ⟨holder, ?_⟩
        rw [before.callers_afterSection_of_ne hne]
        intro haway
        rw [haway] at hholds
        cases hholds
      · rw [hsame, hlowered] at hpending
        cases hpending
    · refine ⟨caller, ?_⟩
      rw [World.callers_afterSection_self]
      exact hnext

theorem work_concat (acts : List (Nat × Act)) (caller : Nat) (act : Act) :
    work (acts ++ [(caller, act)]) =
      work acts ++ (if act.isWork then [act] else []).map (caller, ·) := by
  unfold work
  rw [List.filter_append, List.filter_singleton]
  cases act.isWork <;> rfl

theorem rounds_concat (acts : List (Nat × Act)) (caller : Nat) (act : Act) :
    rounds (acts ++ [(caller, act)]) = rounds acts ++ act.round.map (caller, ·) := by
  unfold rounds
  rw [List.flatMap_append, List.flatMap_singleton]

/-- What has been done, and what one caller has still to do, are the rounds that were opened. -/
def Balanced (acts : List (Nat × Act)) (world : World) : Prop :=
  ∃ worker, work acts ++ (world.callers worker).left.map (worker, ·) = rounds acts ∧
    ∀ other, other ≠ worker → (world.callers other).left = []

theorem Balanced.step {acts : List (Nat × Act)} {before after : World} {act : Nat × Act}
    (h : Balanced acts before) (hexclusive : Exclusive before) (hstep : Step before act after)
    (hfine : act.2 ≠ .breakDown) : Balanced (acts ++ [act]) after := by
  obtain ⟨caller, act, next, shared, hsection⟩ := hstep
  obtain ⟨worker, hbalance, hothers⟩ := h
  have hsplit := hsection.left_append_round hfine
  -- The caller of the section is the one that works, if nobody else has anything left to do.
  have hcaller (halone : ∀ other, other ≠ caller → (before.callers other).left = [])
      (hdone : work acts ++ (before.callers caller).left.map (caller, ·) = rounds acts) :
      Balanced (acts ++ [(caller, act)]) (before.afterSection caller next shared) := by
    refine ⟨caller, ?_, ?_⟩
    · rw [World.callers_afterSection_self, work_concat, rounds_concat, ← hdone,
        List.append_assoc, List.append_assoc, ← List.map_append, ← List.map_append, hsplit]
    · intro other hother
      rw [before.callers_afterSection_of_ne hother]
      exact halone other hother
  by_cases hworker : worker = caller
  · subst hworker
    exact hcaller hothers hbalance
  · by_cases hidle : (before.callers worker).left = []
    · refine hcaller ?_ ?_
      · intro other _
        by_cases hother : other = worker
        · rw [hother, hidle]
        · exact hothers other hother
      · rw [hothers caller (Ne.symm hworker), ← hbalance, hidle]
        rfl
    · -- The worker has the lock, so the caller does no part of a round.
      have hholds : (before.callers worker).holdsLock = true := by
        by_contra hfree
        exact hidle (Caller.left_of_not_holdsLock (Bool.eq_false_iff.mpr hfree))
      have hfree : (before.callers caller).holdsLock = false := by
        rw [Bool.eq_false_iff]
        intro hcaller
        exact hworker (hexclusive.only worker caller hholds hcaller)
      obtain ⟨hwork, hround, hleft⟩ := hsection.idle_of_not_holdsLock hfree
      refine ⟨worker, ?_, ?_⟩
      · rw [before.callers_afterSection_of_ne hworker, work_concat, rounds_concat, hwork, hround,
          ← hbalance]
        simp
      · intro other hother
        by_cases hsame : other = caller
        · rw [hsame, World.callers_afterSection_self, hleft]
        · rw [before.callers_afterSection_of_ne hsame]
          exact hothers other hother

/-- The flags stand for the triggers since they were last taken. -/
structure Flagged (acts : List (Nat × Act)) (world : World) : Prop where
  pending : world.shared.pending = (sinceTake acts).any (·.2.isTrigger)
  reloadPending : world.shared.reloadPending = (sinceTake acts).any (·.2.asksReload)

theorem Flagged.step {acts : List (Nat × Act)} {before after : World} {act : Nat × Act}
    (h : Flagged acts before) (hstep : Step before act after) : Flagged (acts ++ [act]) after := by
  obtain ⟨caller, act, next, shared, hsection⟩ := hstep
  obtain ⟨hpending, hreload⟩ := hsection.flags
  have hsince : sinceTake (acts ++ [(caller, act)]) =
      if act.isTake then [] else sinceTake acts ++ [(caller, act)] := by
    unfold sinceTake
    rw [List.rtakeWhile_concat]
    cases act.isTake <;> rfl
  refine ⟨?_, ?_⟩
  · rw [World.shared_afterSection, hpending, hsince, h.pending]
    cases act.isTake <;> simp
  · rw [World.shared_afterSection, hreload, hsince, h.reloadPending]
    cases act.isTake <;> simp

/-- Every take has a trigger of its own, and so has the raised flag. -/
def Paid (acts : List (Nat × Act)) (world : World) : Prop :=
  acts.countP (·.2.isTake) + world.shared.pending.toNat ≤ acts.countP (·.2.isTrigger)

theorem Paid.step {acts : List (Nat × Act)} {before after : World} {act : Nat × Act}
    (h : Paid acts before) (hstep : Step before act after) : Paid (acts ++ [act]) after := by
  obtain ⟨caller, act, next, shared, hsection⟩ := hstep
  have hraised : act.isTake = true → before.shared.pending = true := by
    cases act with
    | take reload =>
      intro _
      exact hsection.of_take.2.1
    | _ => exact nofun
  have hpending := hsection.flags.1
  unfold Paid at h ⊢
  rw [List.countP_append, List.countP_append, List.countP_singleton, List.countP_singleton,
    World.shared_afterSection, hpending]
  cases htake : act.isTake with
  | true =>
    rw [hraised htake, Bool.toNat_true] at h
    rw [if_pos rfl, Bool.not_true, Bool.false_and, Bool.toNat_false]
    omega
  | false =>
    rw [if_neg Bool.false_ne_true, Bool.not_false, Bool.true_and]
    cases act.isTrigger with
    | true =>
      have := Bool.toNat_le (before.shared.pending || true)
      rw [if_pos rfl]
      omega
    | false =>
      rw [Bool.or_false, if_neg Bool.false_ne_true]
      exact h

/-! ## Runs -/

namespace Run

variable {start after : World} {acts first second : List (Nat × Act)} {act : Nat × Act}

/-- The last step of a run. -/
theorem exists_last (h : Run start (acts ++ [act]) after) :
    ∃ middle, Run start acts middle ∧ Step middle act after := by
  generalize hall : acts ++ [act] = all at h
  cases h with
  | refl => exact absurd hall (List.append_ne_nil_of_right_ne_nil _ (List.cons_ne_nil _ _))
  | step first last =>
    obtain ⟨rfl, hact⟩ := List.append_inj' hall rfl
    cases hact
    exact ⟨_, first, last⟩

/-- A run through a first and a second part comes by a world between them. -/
theorem exists_between (h : Run start (first ++ second) after) :
    ∃ middle, Run start first middle ∧ Run middle second after := by
  induction second using List.reverseRecOn generalizing after with
  | nil =>
    rw [List.append_nil] at h
    exact ⟨after, h, .refl after⟩
  | append_singleton second act ih =>
    rw [← List.append_assoc] at h
    obtain ⟨before, hbefore, hlast⟩ := h.exists_last
    obtain ⟨middle, hfirst, hsecond⟩ := ih hbefore
    exact ⟨middle, hfirst, .step hsecond hlast⟩

/-- An act of a run is a step from where the acts before it lead. -/
theorem exists_step (h : Run start (first ++ act :: second) after) :
    ∃ before next, Run start first before ∧ Step before act next := by
  rw [List.append_cons] at h
  obtain ⟨next, hnext, _⟩ := h.exists_between
  obtain ⟨before, hbefore, hstep⟩ := hnext.exists_last
  exact ⟨before, next, hbefore, hstep⟩

end Run

/-- What every step keeps, as long as nothing breaks down. -/
structure Invariant (acts : List (Nat × Act)) (world : World) : Prop where
  exclusive : Exclusive world
  attended : Attended world
  balanced : Balanced acts world
  flagged : Flagged acts world
  paid : Paid acts world

theorem invariant_start : Invariant [] .start where
  exclusive := exclusive_start
  attended := ⟨fun _ => Caller.noConfusion, nofun⟩
  balanced := ⟨0, rfl, fun _ _ => rfl⟩
  flagged := ⟨rfl, rfl⟩
  paid := Nat.le_refl 0

theorem Invariant.step {acts : List (Nat × Act)} {before after : World} {act : Nat × Act}
    (h : Invariant acts before) (hstep : Step before act after) (hfine : act.2 ≠ .breakDown) :
    Invariant (acts ++ [act]) after where
  exclusive := h.exclusive.step hstep
  attended := h.attended.step h.exclusive hstep hfine
  balanced := h.balanced.step h.exclusive hstep hfine
  flagged := h.flagged.step hstep
  paid := h.paid.step hstep

theorem Run.invariant {acts : List (Nat × Act)} {world : World} (h : Run .start acts world)
    (hfine : ∀ act ∈ acts, act.2 ≠ .breakDown) : Invariant acts world := by
  induction h with
  | refl => exact invariant_start
  | step first last ih =>
    refine (ih ?_).step last ?_
    · intro act hact
      exact hfine act (List.mem_append_left _ hact)
    · exact hfine _ (List.mem_append_right _ (List.mem_singleton_self _))

/-! ## Between takes -/

section

variable {acts earlier later between : List (Nat × Act)} {world : World} {caller : Nat}
  {reload : Bool}

theorem rounds_eq_nil (h : ∀ act ∈ acts, act.2.isTake = false) : rounds acts = [] := by
  refine List.flatMap_eq_nil_iff.mpr ?_
  rintro ⟨caller, act⟩ hact
  have hnot := h _ hact
  cases act with
  | take reload => cases hnot
  | _ => rfl

theorem work_append (first second : List (Nat × Act)) :
    work (first ++ second) = work first ++ work second :=
  List.filter_append ..

theorem rounds_append (first second : List (Nat × Act)) :
    rounds (first ++ second) = rounds first ++ rounds second :=
  List.flatMap_append ..

theorem rounds_take_cons (caller : Nat) (reload : Bool) (acts : List (Nat × Act)) :
    rounds ((caller, .take reload) :: acts) = roundOf caller reload ++ rounds acts := rfl

/-- Where nobody has anything left to do, every round that was opened is done. -/
theorem Balanced.work_eq_rounds (h : Balanced acts world)
    (hleft : ∀ caller, (world.callers caller).left = []) : work acts = rounds acts := by
  obtain ⟨worker, hbalance, _⟩ := h
  rw [← hbalance, hleft worker, List.map_nil, List.append_nil]

/-- Whoever takes the flags has nothing left to do, and nobody else has the lock. -/
theorem Exclusive.left_eq_nil_of_take {after : World} (h : Exclusive world)
    (hstep : Step world (caller, .take reload) after) (other : Nat) :
    (world.callers other).left = [] := by
  cases hstep with
  | of _ _ next shared hsection =>
    obtain ⟨htaking, _, _⟩ := hsection.of_take
    by_cases hother : other = caller
    · rw [hother, htaking]
      rfl
    · refine Caller.left_of_not_holdsLock (Bool.eq_false_iff.mpr ?_)
      intro hholds
      refine hother (h.only other caller hholds ?_)
      rw [htaking]
      rfl

/-- When the flags are taken, the rounds before are done. -/
theorem Run.work_eq_rounds_of_take
    (h : Run .start (earlier ++ (caller, .take reload) :: later) world)
    (hfine : ∀ act ∈ earlier, act.2 ≠ .breakDown) : work earlier = rounds earlier := by
  obtain ⟨before, next, hbefore, hstep⟩ := h.exists_step
  have hinvariant := hbefore.invariant hfine
  exact hinvariant.balanced.work_eq_rounds (hinvariant.exclusive.left_eq_nil_of_take hstep)

/-- Acts without a take are all since the last take. -/
theorem sinceTake_append (earlier : List (Nat × Act)) (h : ∀ act ∈ later, act.2.isTake = false) :
    sinceTake (earlier ++ later) = sinceTake earlier ++ later := by
  unfold sinceTake List.rtakeWhile
  rw [List.reverse_append, List.takeWhile_append_of_pos, List.reverse_append, List.reverse_reverse]
  intro act hact
  rw [h act (List.mem_reverse.mp hact)]
  rfl

/-- Either the flags are not taken, or there is a first time that they are. -/
theorem no_take_or_exists_first (acts : List (Nat × Act)) :
    (∀ act ∈ acts, act.2.isTake = false) ∨ ∃ waiting server wants since,
      acts = waiting ++ (server, .take wants) :: since ∧ ∀ act ∈ waiting, act.2.isTake = false := by
  induction acts with
  | nil => exact .inl (List.forall_mem_nil _)
  | cons head acts ih =>
    obtain ⟨server, act⟩ := head
    cases hact : act.isTake with
    | true =>
      cases act with
      | take wants => exact .inr ⟨[], server, wants, acts, rfl, List.forall_mem_nil _⟩
      | _ => cases hact
    | false =>
      obtain hnone | ⟨waiting, taker, wants, since, rfl, hwaiting⟩ := ih
      · exact .inl (List.forall_mem_cons.mpr ⟨hact, hnone⟩)
      · exact .inr ⟨(server, act) :: waiting, taker, wants, since, rfl,
          List.forall_mem_cons.mpr ⟨hact, hwaiting⟩⟩

/-- What has been done since the flags were taken, and what one caller has still to do, are the
rounds that were opened since. -/
theorem Run.work_since_take (h : Run .start (earlier ++ (caller, .take reload) :: later) world)
    (hfine : ∀ act ∈ earlier ++ (caller, .take reload) :: later, act.2 ≠ .breakDown) :
    ∃ worker, work ((caller, .take reload) :: later) ++
        (world.callers worker).left.map (worker, ·) = roundOf caller reload ++ rounds later := by
  have hearlier : work earlier = rounds earlier := by
    refine h.work_eq_rounds_of_take ?_
    intro act hact
    exact hfine act (List.mem_append_left _ hact)
  obtain ⟨worker, hbalance, _⟩ := (h.invariant hfine).balanced
  rw [work_append, rounds_append, hearlier, List.append_assoc] at hbalance
  exact ⟨worker, List.append_cancel_left hbalance⟩

end

/-! ## The whole of a run -/

/-- What holds after a run in which nothing breaks down. -/
structure Coordinated (acts : List (Nat × Act)) (world : World) : Prop where
  /-- At most one caller reloads or builds. -/
  alone : ∀ first second, (world.callers first).isWorking = true →
    (world.callers second).isWorking = true → first = second
  /-- When nobody is calling, no flag is raised and the lock is free. -/
  quiet : world.Idle → world.shared = .quiet
  /-- When nobody is calling, every trigger has been served: whoever took the flags first after it
  has reloaded, if the trigger asked for it, and then built. -/
  served : world.Idle → ∀ earlier caller reload later,
    acts = earlier ++ (caller, .trigger reload) :: later →
    ∃ waiting server wants since, later = waiting ++ (server, .take wants) :: since ∧
      (∀ act ∈ waiting, act.2.isTake = false) ∧ (reload = true → wants = true) ∧
      roundOf server wants <+: work ((server, .take wants) :: since)
  /-- Until the flags are taken anew, nothing is done but one round. -/
  single : ∀ earlier caller reload between later,
    acts = earlier ++ (caller, .take reload) :: between ++ later →
    (∀ act ∈ between, act.2.isTake = false) →
    work ((caller, .take reload) :: between) <+: roundOf caller reload
  /-- When the flags are taken anew, that round is done. -/
  finished : ∀ earlier caller reload between second again later,
    acts = earlier ++ (caller, .take reload) :: between ++ (second, .take again) :: later →
    (∀ act ∈ between, act.2.isTake = false) →
    work ((caller, .take reload) :: between) = roundOf caller reload
  /-- The flags that are taken are those that were raised since they were taken before. -/
  taken : ∀ earlier caller reload later, acts = earlier ++ (caller, .take reload) :: later →
    (sinceTake earlier).any (·.2.isTrigger) = true ∧
      reload = (sinceTake earlier).any (·.2.asksReload)
  /-- There are no more builds than triggers. -/
  builds_le : acts.countP (·.2.isBuild) ≤ acts.countP (·.2.isTrigger)

/-- Builds are part of rounds, and there is one in each. -/
theorem Balanced.countP_isBuild_le {acts : List (Nat × Act)} {world : World}
    (h : Balanced acts world) : acts.countP (·.2.isBuild) ≤ acts.countP (·.2.isTake) := by
  have hwork : (work acts).countP (·.2.isBuild) = acts.countP (·.2.isBuild) := by
    unfold work
    rw [List.countP_filter]
    refine List.countP_congr ?_
    rintro ⟨caller, act⟩ _
    cases act <;> simp [Act.isBuild, Act.isWork]
  have hrounds : (rounds acts).countP (·.2.isBuild) = acts.countP (·.2.isTake) := by
    clear hwork h
    induction acts with
    | nil => rfl
    | cons head acts ih =>
      obtain ⟨caller, act⟩ := head
      have hround : (act.round.map (caller, ·)).countP (·.2.isBuild) = if act.isTake then 1 else 0 := by
        cases act with
        | take reload => cases reload <;> rfl
        | _ => rfl
      rw [List.countP_cons, ← ih, Nat.add_comm, ← hround, ← List.countP_append]
      rfl
  obtain ⟨worker, hbalance, _⟩ := h
  rw [← hwork, ← hrounds, ← hbalance, List.countP_append]
  exact Nat.le_add_right _ _

/-- When nobody is calling, no flag is raised and the lock is free. -/
theorem Invariant.quiet_of_idle {acts : List (Nat × Act)} {world : World}
    (h : Invariant acts world) (hidle : world.Idle) : world.shared = .quiet := by
  have hlocked : world.shared.locked = false := by
    rw [Bool.eq_false_iff]
    intro hlocked
    obtain ⟨holder, hholds⟩ := h.exclusive.locked_iff.mp hlocked
    rw [hidle holder] at hholds
    cases hholds
  have hpending : world.shared.pending = false := by
    rw [Bool.eq_false_iff]
    intro hpending
    obtain ⟨caller, haway⟩ := h.attended.awake hpending
    exact haway (hidle caller)
  have hreload : world.shared.reloadPending = false := by
    -- What asks for a reload asks for a rebuild too.
    rw [h.flagged.pending, List.any_eq_false] at hpending
    rw [h.flagged.reloadPending, List.any_eq_false]
    rintro ⟨caller, act⟩ hact hasks
    refine hpending _ hact ?_
    cases act with
    | trigger reload => rfl
    | _ => cases hasks
  cases hshared : world.shared with
  | mk pending reloadPending locked =>
    rw [hshared] at hlocked hpending hreload
    subst hlocked hpending hreload
    rfl

/-- The flags that are taken are those that were raised since they were taken before. -/
theorem Run.taken_eq {earlier later : List (Nat × Act)} {caller : Nat} {reload : Bool}
    {world : World} (h : Run .start (earlier ++ (caller, .take reload) :: later) world)
    (hfine : ∀ act ∈ earlier, act.2 ≠ .breakDown) :
    (sinceTake earlier).any (·.2.isTrigger) = true ∧
      reload = (sinceTake earlier).any (·.2.asksReload) := by
  obtain ⟨before, next, hbefore, hstep⟩ := h.exists_step
  have hflagged := (hbefore.invariant hfine).flagged
  cases hstep with
  | of _ _ _ _ hsection =>
    obtain ⟨_, hpending, hreload⟩ := hsection.of_take
    rw [← hflagged.pending, ← hflagged.reloadPending]
    exact ⟨hpending, hreload⟩

/-- When nobody is calling, every trigger has been served. -/
theorem Run.served_of_idle {earlier later : List (Nat × Act)} {caller : Nat} {reload : Bool}
    {world : World} (h : Run .start (earlier ++ (caller, .trigger reload) :: later) world)
    (hfine : ∀ act ∈ earlier ++ (caller, .trigger reload) :: later, act.2 ≠ .breakDown)
    (hidle : world.Idle) :
    ∃ waiting server wants since, later = waiting ++ (server, .take wants) :: since ∧
      (∀ act ∈ waiting, act.2.isTake = false) ∧ (reload = true → wants = true) ∧
      roundOf server wants <+: work ((server, .take wants) :: since) := by
  have hinvariant := h.invariant hfine
  obtain hnone | ⟨waiting, server, wants, since, rfl, hwaiting⟩ := no_take_or_exists_first later
  · -- The flag would still be raised, and somebody there to look at it.
    have hpending := hinvariant.flagged.pending
    rw [hinvariant.quiet_of_idle hidle,
      sinceTake_append earlier (List.forall_mem_cons.mpr ⟨rfl, hnone⟩), List.any_append,
      List.any_cons] at hpending
    simp [Act.isTrigger, quiet] at hpending
  · refine ⟨waiting, server, wants, since, rfl, hwaiting, ?_, ?_⟩
    · intro hreload
      rw [← List.cons_append, ← List.append_assoc] at h
      have htaken := h.taken_eq ?_
      · rw [htaken.2, sinceTake_append earlier (List.forall_mem_cons.mpr ⟨rfl, hwaiting⟩),
          List.any_append, List.any_cons, hreload]
        simp [Act.asksReload]
      · intro act hact
        refine hfine act ?_
        rw [← List.cons_append, ← List.append_assoc]
        exact List.mem_append_left _ hact
    · rw [← List.cons_append, ← List.append_assoc] at h hfine
      obtain ⟨worker, hwork⟩ := h.work_since_take hfine
      rw [hidle worker] at hwork
      rw [show Caller.left .away = [] from rfl, List.map_nil, List.append_nil] at hwork
      exact ⟨rounds since, hwork.symm⟩

/-- Whatever the callers do, and in whatever order, every trigger is served, once and by one caller
at a time. -/
theorem Run.coordinated {acts : List (Nat × Act)} {world : World} (h : Run .start acts world)
    (hfine : ∀ act ∈ acts, act.2 ≠ .breakDown) : Coordinated acts world := by
  have hinvariant := h.invariant hfine
  constructor
  case alone =>
    intro first second hfirst hsecond
    exact hinvariant.exclusive.only first second (Caller.holdsLock_of_isWorking hfirst)
      (Caller.holdsLock_of_isWorking hsecond)
  case quiet =>
    intro hidle
    exact hinvariant.quiet_of_idle hidle
  case served =>
    rintro hidle earlier caller reload later rfl
    exact h.served_of_idle hfine hidle
  case single =>
    rintro earlier caller reload between later rfl hbetween
    obtain ⟨middle, hmiddle, _⟩ := h.exists_between
    obtain ⟨worker, hwork⟩ := hmiddle.work_since_take fun act hact =>
      hfine act (List.mem_append_left _ hact)
    rw [rounds_eq_nil hbetween, List.append_nil] at hwork
    exact ⟨_, hwork⟩
  case finished =>
    rintro earlier caller reload between second again later rfl hbetween
    have hfirst : ∀ act ∈ earlier ++ (caller, .take reload) :: between, act.2 ≠ .breakDown :=
      fun act hact => hfine act (List.mem_append_left _ hact)
    have hdone := h.work_eq_rounds_of_take hfirst
    have hbefore : work earlier = rounds earlier := by
      rw [List.append_assoc] at h
      exact h.work_eq_rounds_of_take fun act hact => hfirst act (List.mem_append_left _ hact)
    rw [work_append, rounds_append, hbefore, rounds_take_cons, rounds_eq_nil hbetween,
      List.append_nil] at hdone
    exact List.append_cancel_left hdone
  case taken =>
    rintro earlier caller reload later rfl
    exact h.taken_eq fun act hact => hfine act (List.mem_append_left _ hact)
  case builds_le =>
    calc acts.countP (·.2.isBuild) ≤ acts.countP (·.2.isTake) :=
          hinvariant.balanced.countP_isBuild_le
      _ ≤ acts.countP (·.2.isTrigger) := Nat.le_of_add_right_le hinvariant.paid

end DesignTokens.Coordination
