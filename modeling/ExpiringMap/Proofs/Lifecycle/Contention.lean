import ExpiringMap.Consultation
import Mathlib.Logic.Function.Basic

/-!
# Calls of `start` and `stop` that contend for a map

Any number of calls of `start` and `stop` are made on one map, by threads or from within hooks, and
each of their acts may come between any two acts of the others.  What else goes on meanwhile may
change what it likes: the scheduler, the stores, the clock, what hooks remember.  Only the phase and
the job of the map it leaves to the calls, as every other operation does while the map has a handle;
and a map on which calls are made has one.

A contention keeps a record of what has happened: which act was performed by which call and how it
was answered, and which calls have come to a good end.
-/

namespace ExpiringMap

variable {n : Nat} {S K V : Type}

/-- What is done for a lifecycle call on a map. -/
def LifecycleCall.operation (map : Fin n) (interval : Duration) :
    LifecycleCall → Operation n K V (Except Error Unit)
  | start => Operation.start map interval
  | stop => Operation.stop map

/-- A lifecycle call, with what remains to be done for it. -/
structure Attempt (n : Nat) (K V : Type) where
  call : LifecycleCall
  rest : Operation n K V (Except Error Unit)

namespace Attempt

/-- The act that comes next. -/
def next? : Attempt n K V → Option (Act n K V)
  | ⟨_, .act (.act act) _⟩ => some act
  | _ => none

def HasSucceeded (attempt : Attempt n K V) : Prop := attempt.rest = .done (.ok ())

instance (attempt : Attempt n K V) : Decidable attempt.HasSucceeded :=
  match h : attempt.rest with
  | .done (.ok ()) => isTrue h
  | .done (.error _) => isFalse (by simp [HasSucceeded, h])
  | .act .. => isFalse (by simp [HasSucceeded, h])

end Attempt

/-- An act that was performed for a call, with its answer. -/
structure Performed (n : Nat) (K V : Type) where
  /-- The number of the call. -/
  number : Nat
  act : Act n K V
  answer : act.Answer

namespace Performed

/-- Whether it has moved the map out of the phase that the call needs. -/
def claims (map : Fin n) : Performed n K V → Bool
  | ⟨_, .map other (.shift ..), .ok _⟩ => decide (other = map)
  | _ => false

/-- Whether it has set the phase of the map, whatever that was. -/
def sets (map : Fin n) : Performed n K V → Bool
  | ⟨_, .map other (.setPhase _), _⟩ => decide (other = map)
  | _ => false

def takesJob (map : Fin n) : Performed n K V → Bool
  | ⟨_, .map other .takeJob, _⟩ => decide (other = map)
  | _ => false

end Performed

/-- A deployment, and the lifecycle calls that have been made on one of its maps. -/
structure Contention (n : Nat) (S K V : Type) where
  deployment : Deployment n S K V
  /-- The calls by their numbers, those included that have come to their end. -/
  attempts : Nat → Option (Attempt n K V) := fun _ => none
  /-- What has been performed for them, the last act first. -/
  history : List (Performed n K V) := []
  /-- The calls that have succeeded, the first one first. -/
  successes : List LifecycleCall := []

namespace Contention

/-- A call has come so far. -/
def setAttempt (scene : Contention n S K V) (number : Nat) (attempt : Attempt n K V) :
    Contention n S K V :=
  { scene with
    attempts := Function.update scene.attempts number (some attempt)
    successes :=
      if attempt.HasSucceeded then scene.successes ++ [attempt.call] else scene.successes }

variable [DecidableEq K]

/-- The next act of a call is performed. -/
def perform (plan : Plan n S K V) (scene : Contention n S K V) (number : Nat)
    (call : LifecycleCall) (act : Act n K V)
    (next : act.Answer → Operation n K V (Except Error Unit)) : Contention n S K V :=
  let (answer, deployment) := scene.deployment.perform plan.enumeration act
  { scene with deployment, history := ⟨number, act, answer⟩ :: scene.history }.setAttempt number
    ⟨call, next answer⟩

/-- What may happen in a contention for a map. -/
inductive Move (plan : Plan n S K V) (map : Fin n) :
    Contention n S K V → Contention n S K V → Prop
  | begins {scene : Contention n S K V} (number : Nat) (call : LifecycleCall)
      (interval : Duration) :
      scene.attempts number = none →
      Move plan map scene (scene.setAttempt number ⟨call, call.operation map interval⟩)
  | performs {scene : Contention n S K V} {call : LifecycleCall} {act : Act n K V}
      {next : act.Answer → Operation n K V (Except Error Unit)} (number : Nat) :
      scene.attempts number = some ⟨call, .act (.act act) next⟩ →
      Move plan map scene (scene.perform plan number call act next)
  /-- A hook is consulted; what it does is no part of the call. -/
  | consults {scene : Contention n S K V} {call : LifecycleCall} {other : Fin n}
      {hook : Hook K V} {next : Outcome Bool → Operation n K V (Except Error Unit)}
      (number : Nat) (verdict : Outcome Bool) :
      scene.attempts number = some ⟨call, .act (.consult other hook) next⟩ →
      Move plan map scene (scene.setAttempt number ⟨call, next verdict⟩)
  | meanwhile {scene : Contention n S K V} (deployment : Deployment n S K V) :
      (deployment.state map).phase = (scene.deployment.state map).phase →
      (deployment.state map).job = (scene.deployment.state map).job →
      (deployment.state map).hasHandle = true →
      Move plan map scene { scene with deployment }

/-- The contentions for a map that come up after it has been built. -/
inductive Reachable (plan : Plan n S K V) (map : Fin n) : Contention n S K V → Prop
  | fresh (drive : Drive) (clockRuns : Bool) (memory : S) :
      Reachable plan map { deployment := .fresh drive clockRuns memory }
  | move {scene later : Contention n S K V} :
      Reachable plan map scene → Move plan map scene later → Reachable plan map later

omit [DecidableEq K] in
/-- The act that comes next for a call. -/
def next? (scene : Contention n S K V) (number : Nat) : Option (Act n K V) :=
  (scene.attempts number).bind Attempt.next?

/-- Whether a call has moved the map out of the phase that it needed, and has not set the phase
that it leaves the map in. -/
def Between (map : Fin n) (scene : Contention n S K V) (number : Nat) : Prop :=
  (∃ done ∈ scene.history, done.number = number ∧ done.claims map = true) ∧
    ∀ done ∈ scene.history, done.number = number → done.sets map = false

/-- Whether a call is at the job of the map: it is about to put its job there or to take the job
out, or it has taken it out and is about to cancel it. -/
def AtJob (map : Fin n) (scene : Contention n S K V) (number : Nat) : Prop :=
  (∃ id, scene.next? number = some (.map map (.keepJob id))) ∨
    scene.next? number = some (.map map .takeJob) ∨
    (∃ done ∈ scene.history, done.number = number ∧ done.takesJob map = true) ∧
      ∀ done ∈ scene.history, done.number = number → done.sets map = false

end Contention

end ExpiringMap
