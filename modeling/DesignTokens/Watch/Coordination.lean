/-!
# Coordination of rebuilds

Triggers for a rebuild may come from several callers at once, while at most one of them builds.
A trigger raises a flag; whoever holds the build lock takes the flags and serves them with one
build, until none is raised.  A caller that finds the lock taken leaves its trigger to the holder.
After it has released the lock, a holder looks at the flag once more, since a trigger may have come
in between.

The shared state changes only in atomic sections.  `Caller` tells which section a caller comes to
next, and `Step` lets any caller take it.
-/

set_option autoImplicit false

namespace DesignTokens

/-- What the callers share: a rebuild is wanted, a reload of the settings before it is wanted, and
the build lock is held. -/
structure Coordination where
  pending : Bool
  reloadPending : Bool
  locked : Bool
  deriving DecidableEq, Repr, Inhabited

namespace Coordination

/-- Nothing is wanted and the lock is free. -/
def quiet : Coordination := ⟨false, false, false⟩

/-- Raises the flags of a trigger. -/
def announce (shared : Coordination) (reload : Bool) : Coordination :=
  { shared with pending := true, reloadPending := shared.reloadPending || reload }

/-- Takes the lock, if it is free. -/
def tryLock (shared : Coordination) : Option Coordination :=
  if shared.locked then none else some { shared with locked := true }

/-- Takes the flags, if a rebuild is wanted, and tells whether a reload is. -/
def take (shared : Coordination) : Option (Bool × Coordination) :=
  if shared.pending then
    some (shared.reloadPending, { shared with pending := false, reloadPending := false })
  else
    none

/-- Releases the lock. -/
def release (shared : Coordination) : Coordination :=
  { shared with locked := false }

theorem tryLock_eq_none_iff {shared : Coordination} :
    shared.tryLock = none ↔ shared.locked = true := by
  simp [tryLock]

theorem tryLock_eq_some_iff {shared after : Coordination} :
    shared.tryLock = some after ↔ shared.locked = false ∧ after = { shared with locked := true } := by
  unfold tryLock
  cases shared.locked with
  | false => simp [eq_comm]
  | true => simp

theorem take_eq_none_iff {shared : Coordination} : shared.take = none ↔ shared.pending = false := by
  simp [take]

theorem take_eq_some_iff {shared after : Coordination} {reload : Bool} :
    shared.take = some (reload, after) ↔ shared.pending = true ∧ reload = shared.reloadPending ∧
      after = { shared with pending := false, reloadPending := false } := by
  unfold take
  cases shared.pending with
  | false => simp
  | true => simp [eq_comm]

/-! ## Callers, section by section -/

/-- The section that a caller comes to next. -/
inductive Caller where
  /-- Not calling. -/
  | away
  /-- To try the lock. -/
  | trying
  /-- To take the flags, holding the lock. -/
  | taking
  /-- To begin a reload. -/
  | beforeReload
  /-- Reloading. -/
  | reloading
  /-- To begin a build. -/
  | beforeBuild
  /-- Building. -/
  | building
  /-- To release the lock. -/
  | releasing
  /-- To look at the flag after the release. -/
  | rechecking
  /-- To release the lock after a breakdown, and to look at nothing. -/
  | failing
  deriving DecidableEq, Repr, Inhabited

/-- What a section does that others can see.  A reload or a build goes on for a while: others may
take any number of sections between its beginning and its end. -/
inductive Act where
  | trigger (reload : Bool)
  | take (reload : Bool)
  | beginReload
  | endReload
  | beginBuild
  | endBuild
  /-- A reload or a build ends in something else than an error that is told in the log. -/
  | breakDown
  | other
  deriving DecidableEq, Repr, Inhabited

/-- One section of one caller: the caller before and after, the shared state before and after. -/
inductive Section : Caller → Coordination → Act → Caller → Coordination → Prop where
  | trigger (shared : Coordination) (reload : Bool) :
      Section .away shared (.trigger reload) .trying (shared.announce reload)
  | locked (shared : Coordination) (h : shared.tryLock = none) :
      Section .trying shared .other .away shared
  | lock (shared after : Coordination) (h : shared.tryLock = some after) :
      Section .trying shared .other .taking after
  | nothing (shared : Coordination) (h : shared.take = none) :
      Section .taking shared .other .releasing shared
  | reloadFirst (shared after : Coordination) (h : shared.take = some (true, after)) :
      Section .taking shared (.take true) .beforeReload after
  | buildOnly (shared after : Coordination) (h : shared.take = some (false, after)) :
      Section .taking shared (.take false) .beforeBuild after
  | beginReload (shared : Coordination) :
      Section .beforeReload shared .beginReload .reloading shared
  | endReload (shared : Coordination) : Section .reloading shared .endReload .beforeBuild shared
  | beginBuild (shared : Coordination) : Section .beforeBuild shared .beginBuild .building shared
  | endBuild (shared : Coordination) : Section .building shared .endBuild .taking shared
  | reloadBreaks (shared : Coordination) : Section .reloading shared .breakDown .failing shared
  | buildBreaks (shared : Coordination) : Section .building shared .breakDown .failing shared
  | release (shared : Coordination) : Section .releasing shared .other .rechecking shared.release
  | again (shared : Coordination) (h : shared.pending = true) :
      Section .rechecking shared .other .trying shared
  | leave (shared : Coordination) (h : shared.pending = false) :
      Section .rechecking shared .other .away shared
  | giveUp (shared : Coordination) : Section .failing shared .other .away shared.release

/-- The callers, by number, and what they share.  A call that is made from within a build counts as
a caller of its own. -/
structure World where
  callers : Nat → Caller
  shared : Coordination

/-- Nobody is calling. -/
def World.Idle (world : World) : Prop := ∀ caller, world.callers caller = .away

/-- Nobody has called yet. -/
def World.start : World := ⟨fun _ => .away, .quiet⟩

/-- The world after a section of one caller. -/
def World.afterSection (world : World) (caller : Nat) (next : Caller) (shared : Coordination) :
    World :=
  ⟨fun other => if other = caller then next else world.callers other, shared⟩

@[simp]
theorem World.callers_afterSection_self (world : World) (caller : Nat) (next : Caller)
    (shared : Coordination) : (world.afterSection caller next shared).callers caller = next := by
  simp [afterSection]

theorem World.callers_afterSection_of_ne (world : World) {caller other : Nat} (h : other ≠ caller)
    (next : Caller) (shared : Coordination) :
    (world.afterSection caller next shared).callers other = world.callers other := by
  simp [afterSection, h]

@[simp]
theorem World.shared_afterSection (world : World) (caller : Nat) (next : Caller)
    (shared : Coordination) : (world.afterSection caller next shared).shared = shared := rfl

/-- One caller takes its next section. -/
inductive Step : World → Nat × Act → World → Prop where
  | of (world : World) (caller : Nat) (act : Act) (next : Caller) (shared : Coordination)
      (h : Section (world.callers caller) world.shared act next shared) :
      Step world (caller, act) (world.afterSection caller next shared)

/-- A sequence of sections, taken by any callers in any order. -/
inductive Run : World → List (Nat × Act) → World → Prop where
  | refl (world : World) : Run world [] world
  | step {before middle after : World} {acts : List (Nat × Act)} {act : Nat × Act}
      (first : Run before acts middle) (last : Step middle act after) :
      Run before (acts ++ [act]) after

end Coordination

end DesignTokens
