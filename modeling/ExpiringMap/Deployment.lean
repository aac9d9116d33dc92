import ExpiringMap.Clock
import ExpiringMap.Log
import ExpiringMap.MapState
import ExpiringMap.Program
import ExpiringMap.Scheduler
import ExpiringMap.Settings

/-!
# Deployments

A deployment is a number of maps that share a scheduler and a clock.  Its plan says how the
maps are set up and does not change; its state is what the acts change.  The journal keeps
what happened, newest first: what the maps log, what their hooks are called with and answer,
and every change to stores, locks, phases, jobs and the clock.  What happens within the call
of a hook comes in parts, too: the hook is entered, it takes note of what each call of its own
has come to, and it is left.
-/

namespace ExpiringMap

/-- How the maps of a deployment are set up. -/
structure Plan (n : Nat) (S K V : Type) where
  settings : Fin n → Settings n S K V
  enumeration : Fin n → Enumeration K V

/-- Something that happens in a deployment. -/
inductive Event (n : Nat) (K V : Type)
  | ofMap (map : Fin n) (event : MapEvent K V)
  | ofScheduler (event : SchedulerEvent n)
  | clockMoved (now : Instant)
  | logged (map : Fin n) (record : LogRecord)
  | called (map : Fin n) (hook : Hook K V)
  | answered (map : Fin n) (hook : Hook K V) (verdict : Outcome Bool)
  /-- A hook of the map made a call, and got that answer. -/
  | acted (map : Fin n) (call : Call n K V) (answer : Answer V)
  /-- Groups of calls that were made at the same time have all been answered. -/
  | gathered

/-- What is noted of a call that a hook has made: one that panicked has no answer. -/
def Event.ofAction {n : Nat} {K V : Type} (map : Fin n) (call : Call n K V) :
    Outcome (Answer V) → List (Event n K V)
  | .ok answer => [.acted map call answer]
  | .error _ => []

theorem vector_get_set {n : Nat} {α : Type} (values : Vector α n) (place other : Fin n)
    (value : α) :
    (values.set place.val value place.isLt).get other =
      if other = place then value else values.get other := by
  change (values.set place.val value place.isLt)[other.val] = _
  rw [Vector.getElem_set]
  by_cases h : place.val = other.val
  · simp [h, Fin.ext h.symm]
  · have hne : ¬ other = place := fun heq => h (heq ▸ rfl)
    simp only [h, hne, if_false]
    rfl

/-- The state of a deployment. -/
structure Deployment (n : Nat) (S K V : Type) where
  maps : Vector (MapState K V) n
  scheduler : Scheduler n
  clock : Clock
  /-- What the hooks remember. -/
  memory : S
  /-- What has happened so far, newest first. -/
  journal : List (Event n K V) := []

/-- The elementary acts of everything that goes on in a deployment. -/
inductive Act (n : Nat) (K V : Type)
  | map (map : Fin n) (act : MapAct K V)
  | clock (act : ClockAct)
  | scheduler (act : SchedulerAct n)
  | log (map : Fin n) (record : LogRecord)
  | sleep (ns : Nat)

@[reducible]
def Act.Answer {n : Nat} {K V : Type} : Act n K V → Type
  | map _ act => act.Answer
  | clock _ => Instant
  | scheduler act => act.Answer
  | log .. => Unit
  | sleep _ => Unit

namespace Deployment

variable {n : Nat} {S K V : Type}

/-- Maps that have just been built, stopped and empty and with one handle each. -/
def fresh (drive : Drive) (clockRuns : Bool) (memory : S) : Deployment n S K V where
  maps := Vector.replicate n {}
  scheduler := { drive }
  clock := { runs := clockRuns }
  memory

def state (deployment : Deployment n S K V) (map : Fin n) : MapState K V := deployment.maps.get map

def setState (deployment : Deployment n S K V) (map : Fin n) (state : MapState K V) :
    Deployment n S K V :=
  { deployment with maps := deployment.maps.set map.val state map.isLt }

@[simp] theorem state_setState (deployment : Deployment n S K V) (map other : Fin n)
    (state : MapState K V) :
    (deployment.setState map state).state other =
      if other = map then state else deployment.state other :=
  vector_get_set deployment.maps map other state

/-- The deployment with more in its journal, the first event first. -/
def note (deployment : Deployment n S K V) (events : List (Event n K V)) : Deployment n S K V :=
  { deployment with journal := events.reverse ++ deployment.journal }

@[simp] theorem state_note (deployment : Deployment n S K V) (events : List (Event n K V))
    (map : Fin n) : (deployment.note events).state map = deployment.state map := rfl

/-- An act on the clock; it shows the time when the act is over. -/
def onClock (deployment : Deployment n S K V) (act : ClockAct) :
    Instant × Deployment n S K V :=
  let clock := act.apply deployment.clock
  let events := if act.moves deployment.clock then [.clockMoved clock.now] else []
  (clock.now, { deployment with clock }.note events)

def onScheduler (deployment : Deployment n S K V) (act : SchedulerAct n) :
    act.Answer × Deployment n S K V :=
  (act.answer deployment.scheduler,
    { deployment with scheduler := act.apply deployment.scheduler }.note
      ((act.events deployment.scheduler).map .ofScheduler))

def elapse (deployment : Deployment n S K V) (ns : Nat) : Deployment n S K V :=
  let clock := deployment.clock.elapse ns
  let events := if deployment.clock.runs then [.clockMoved clock.now] else []
  { deployment with clock, scheduler := deployment.scheduler.elapse ns }.note events

/-- A hook takes note of what a call of its own has come to; gives what it remembered before. -/
def resume (deployment : Deployment n S K V) (map : Fin n) (call : Call n K V)
    (outcome : Outcome (Answer V)) (remember : S → S) : S × Deployment n S K V :=
  (deployment.memory,
    { deployment with memory := remember deployment.memory }.note (Event.ofAction map call outcome))

def leave (deployment : Deployment n S K V) (map : Fin n) (hook : Hook K V)
    (verdict : Outcome Bool) : Deployment n S K V :=
  deployment.note [.answered map hook verdict]

variable [DecidableEq K]

def onMap (enumeration : Fin n → Enumeration K V) (deployment : Deployment n S K V) (map : Fin n)
    (act : MapAct K V) : act.Answer × Deployment n S K V :=
  let state := deployment.state map
  (act.answer (enumeration map) state,
    (deployment.setState map (act.apply state)).note ((act.events state).map (.ofMap map)))

def perform (enumeration : Fin n → Enumeration K V) (deployment : Deployment n S K V) :
    (act : Act n K V) → act.Answer × Deployment n S K V
  | .map map act => deployment.onMap enumeration map act
  | .clock act => deployment.onClock act
  | .scheduler act => deployment.onScheduler act
  | .log map record => ((), deployment.note [.logged map record])
  | .sleep ns => ((), deployment.elapse ns)

end Deployment

/-- Calls a hook, which changes its memory and gives the script that it is going to run.  A hook
that the policy does not have is not called. -/
def Plan.enter {n : Nat} {S K V : Type} (plan : Plan n S K V) (deployment : Deployment n S K V)
    (map : Fin n) (hook : Hook K V) : Option (Script n S K V) × Deployment n S K V :=
  match (plan.settings map).policy.reaction? hook with
  | none => (none, deployment)
  | some reaction =>
      let (memory, script) := reaction hook deployment.memory
      (some script, { deployment with memory }.note [.called map hook])

end ExpiringMap
