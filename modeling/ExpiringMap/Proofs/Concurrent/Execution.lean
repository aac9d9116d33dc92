import ExpiringMap.Crew
import Mathlib.Logic.Function.Basic

/-!
# Clients that share a map

Any number of clients use one map at the same time, each a thread of its own with a list of
requests before it.  A client is at rest or in the course of a request, and others may come in
between any two of its deeds; somebody else moves the clock.  An execution is any order of such
moves, a client being kept from a move by nothing but a lock that another one holds.  Its history
lists the deeds of the clients: from it one reads who entered the free lock of the map, and what
the clock showed to whom.

Hooks act on the thread of the client that called them.  If a hook makes calls on threads of their
own and waits for them, its client is not followed any further.
-/

namespace ExpiringMap

variable {n : Nat} {S K V : Type}

/-- Whether a request is served under the lock of the map from its first deed to its last. -/
def MapRequest.IsGuarded : MapRequest K V → Prop
  | get _ | put .. | putIfAbsent .. | remove _ | purge => True
  | _ => False

/-- What a client that has a handle of a map does for a request, the calls of hooks nested `depth`
deep at most. -/
def Plan.access (plan : Plan n S K V) (depth : Nat) (map : Fin n) (request : MapRequest K V) :
    Routine n S K V :=
  Operation.unfold (plan.scripts depth) (Operation.serveMap (plan.settings map) map request)
    fun outcome => .done [outcome]

/-- A client of a map. -/
structure Client (n : Nat) (S K V : Type) where
  /-- What remains to be done for the request that is being served; when that is done, what it has
  come to. -/
  current : Routine n S K V := .done []
  /-- The requests that have not been begun, the next one first. -/
  waiting : List (MapRequest K V)
  /-- What the requests before the current one have come to, the first one first. -/
  outcomes : List (Outcome (Answer V)) := []

/-- Whether a client has no request left, and what all of them have come to. -/
def Client.HasEnded (client : Client n S K V) (outcomes : List (Outcome (Answer V))) : Prop :=
  ∃ served, client.current = .done served ∧ client.waiting = [] ∧
    outcomes = client.outcomes ++ served

/-- A deployment with its locks, and the clients at work, each named by its thread. -/
structure Scene (n : Nat) (S K V : Type) where
  stage : Stage n S K V
  clients : ThreadId → Client n S K V

/-- The scene before any client has begun. -/
def Scene.initial (deployment : Deployment n S K V)
    (requests : ThreadId → List (MapRequest K V)) : Scene n S K V where
  stage := { deployment }
  clients thread := { waiting := requests thread }

def Scene.setClient (scene : Scene n S K V) (thread : ThreadId) (client : Client n S K V) :
    Scene n S K V :=
  { scene with clients := Function.update scene.clients thread client }

@[simp] theorem Scene.stage_setClient (scene : Scene n S K V) (thread : ThreadId)
    (client : Client n S K V) : (scene.setClient thread client).stage = scene.stage := rfl

@[simp] theorem Scene.clients_setClient_self (scene : Scene n S K V) (thread : ThreadId)
    (client : Client n S K V) : (scene.setClient thread client).clients thread = client :=
  Function.update_self ..

theorem Scene.clients_setClient_of_ne (scene : Scene n S K V) {thread other : ThreadId}
    (h : other ≠ thread) (client : Client n S K V) :
    (scene.setClient thread client).clients other = scene.clients other :=
  Function.update_of_ne h ..

/-- What the clock shows in a deed, if that is an act on the clock. -/
def Deed.shown : (deed : Deed n S K V) → deed.Answer → List Instant
  | .act (.clock _), now => [now]
  | _, _ => []

/-- A deed that a client has done, with its answer and the locks that it found. -/
structure Doing (n : Nat) (S K V : Type) where
  thread : ThreadId
  deed : Deed n S K V
  answer : deed.Answer
  locks : Vector Lock n

namespace Doing

/-- Who has entered the lock of a map that was free. -/
def entered? (map : Fin n) : Doing n S K V → Option ThreadId
  | ⟨thread, .act (.map other .lock), _, locks⟩ =>
      if other = map ∧ locks.get map = .free then some thread else none
  | _ => none

end Doing

/-- The clients that entered the free lock of a map, in the order in which they did. -/
def acquisitions (map : Fin n) (history : List (Doing n S K V)) : List ThreadId :=
  history.filterMap (Doing.entered? map)

/-- What the clock showed to a client, one time after the other. -/
def shownTo (thread : ThreadId) (history : List (Doing n S K V)) : List Instant :=
  history.flatMap fun doing => if doing.thread = thread then doing.deed.shown doing.answer else []

@[simp] theorem acquisitions_append (map : Fin n) (earlier later : List (Doing n S K V)) :
    acquisitions map (earlier ++ later) = acquisitions map earlier ++ acquisitions map later :=
  List.filterMap_append

@[simp] theorem shownTo_append (thread : ThreadId) (earlier later : List (Doing n S K V)) :
    shownTo thread (earlier ++ later) = shownTo thread earlier ++ shownTo thread later :=
  List.flatMap_append

variable [DecidableEq K]

/-- A single move in a scene, with the deed that was done in it, if any. -/
inductive Plan.Move (plan : Plan n S K V) (depth : Nat) (map : Fin n) :
    Scene n S K V → List (Doing n S K V) → Scene n S K V → Prop
  | begins {scene : Scene n S K V} {served : List (Outcome (Answer V))} {request : MapRequest K V}
      {rest : List (MapRequest K V)} (thread : ThreadId) :
      (scene.clients thread).current = .done served →
      (scene.clients thread).waiting = request :: rest →
      Move plan depth map scene []
        (scene.setClient thread
          { current := plan.access depth map request
            waiting := rest
            outcomes := (scene.clients thread).outcomes ++ served })
  | does {scene : Scene n S K V} {deed : Deed n S K V} {next : deed.Answer → Routine n S K V}
      (thread : ThreadId) :
      (scene.clients thread).current = .step deed next →
      scene.stage.allows plan thread deed = true →
      Move plan depth map scene
        [⟨thread, deed, (scene.stage.perform plan thread deed).1, scene.stage.locks⟩]
        ({ scene with stage := (scene.stage.perform plan thread deed).2 }.setClient thread
          { scene.clients thread with current := next (scene.stage.perform plan thread deed).1 })
  | clockMoves {scene : Scene n S K V} (act : ClockAct) :
      Move plan depth map scene []
        { scene with stage.deployment := (scene.stage.deployment.onClock act).2 }

/-- Any number of moves one after the other. -/
inductive Plan.Execution (plan : Plan n S K V) (depth : Nat) (map : Fin n) :
    Scene n S K V → List (Doing n S K V) → Scene n S K V → Prop
  | start (scene : Scene n S K V) : Execution plan depth map scene [] scene
  | move {first scene last : Scene n S K V} {history happened : List (Doing n S K V)} :
      Execution plan depth map first history scene →
      plan.Move depth map scene happened last →
      Execution plan depth map first (history ++ happened) last

/-! ## Taking turns -/

/-- Whose turn it is to make a move. -/
inductive Mover
  | client (thread : ThreadId)
  | clock (act : ClockAct)

namespace Plan

variable (plan : Plan n S K V) (depth : Nat) (map : Fin n)

/-- The move that is made at a turn.  A client that has no request left or has to wait at the lock
makes none. -/
def take (scene : Scene n S K V) : Mover → List (Doing n S K V) × Scene n S K V
  | .client thread =>
      let client := scene.clients thread
      match client.current with
      | .done served =>
          match client.waiting with
          | [] => ([], scene)
          | request :: rest =>
              ([], scene.setClient thread
                { current := plan.access depth map request
                  waiting := rest
                  outcomes := client.outcomes ++ served })
      | .step deed next =>
          if scene.stage.allows plan thread deed then
            let (answer, stage) := scene.stage.perform plan thread deed
            ([⟨thread, deed, answer, scene.stage.locks⟩],
              { scene with stage }.setClient thread { client with current := next answer })
          else ([], scene)
      | .divide .. => ([], scene)
  | .clock act =>
      ([], { scene with stage.deployment := (scene.stage.deployment.onClock act).2 })

/-- The history and the last scene when clients and the clock have their turns. -/
def follow (scene : Scene n S K V) (movers : List Mover) : List (Doing n S K V) × Scene n S K V :=
  movers.foldl
    (fun (history, scene) mover =>
      let (happened, scene) := plan.take depth map scene mover
      (history ++ happened, scene))
    ([], scene)

variable {plan depth map}

theorem Execution.take {first scene : Scene n S K V} {history : List (Doing n S K V)}
    (h : plan.Execution depth map first history scene) (mover : Mover) :
    plan.Execution depth map first (history ++ (plan.take depth map scene mover).1)
      (plan.take depth map scene mover).2 := by
  have hstill : plan.Execution depth map first (history ++ []) scene := by rwa [List.append_nil]
  cases mover with
  | clock act => exact h.move (.clockMoves act)
  | client thread =>
      unfold Plan.take
      dsimp only
      split
      · next hcurrent =>
        split
        · exact hstill
        · next hwaiting => exact h.move (.begins thread hcurrent hwaiting)
      · next hcurrent =>
        split
        · next hallows => exact h.move (.does thread hcurrent hallows)
        · exact hstill
      · exact hstill

/-- Whatever turns are taken, it is an execution. -/
theorem execution_follow (plan : Plan n S K V) (depth : Nat) (map : Fin n) (scene : Scene n S K V)
    (movers : List Mover) :
    plan.Execution depth map scene (plan.follow depth map scene movers).1
      (plan.follow depth map scene movers).2 := by
  let reaches (reached : List (Doing n S K V) × Scene n S K V) : Prop :=
    plan.Execution depth map scene reached.1 reached.2
  exact List.foldlRecOn (motive := reaches) movers _ (.start scene) fun _ h mover _ => h.take mover

end Plan

end ExpiringMap
