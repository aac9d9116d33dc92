import ExpiringMap.Crew

/-!
# Sessions

A session serves one call after the other and reports what has happened since its last
report.  A call is made by a thread, which where time drives the scheduler works beside those of
the pool.  What happens before groups of calls have all been answered is not reported, since it
happens in no particular order.
-/

namespace ExpiringMap

variable {n : Nat} {S K V : Type}

/-! ## Reports -/

namespace Event

/-- Whether an event belongs in a report.  Locks are reported of maps that record them, and
log and scheduler only where somebody's hand drives the scheduler: the runs of a timed one
come when they come. -/
def isReported (plan : Plan n S K V) (drive : Drive) : Event n K V → Bool
  | ofMap map .locked | ofMap map .unlocked =>
      decide ((plan.settings map).locking = .recording) && !drive.isTimed
  | ofScheduler (.scheduled ..) | ofScheduler (.refused ..) | ofScheduler (.cancelled ..)
  | ofScheduler (.began _) | logged .. => !drive.isTimed
  | ofMap .. | ofScheduler _ | clockMoved _ | answered .. | gathered => false
  | called .. | acted .. => true

def isGathered : Event n K V → Bool
  | gathered => true
  | _ => false

/-- Inserts an event in front of others.  It goes past the screenings of smaller keys at their
head if it is a screening itself. -/
def insertOrdered (le : K → K → Bool) (event : Event n K V) :
    List (Event n K V) → List (Event n K V)
  | [] => [event]
  | next :: rest =>
      match event, next with
      | called _ (.screening entry), called _ (.screening other) =>
          if le entry.key other.key then event :: next :: rest
          else next :: insertOrdered le event rest
      | _, _ => event :: next :: rest

/-- Events with neighbouring screenings sorted by key, since a scan lists entries in no
particular order. -/
def ordered (le : K → K → Bool) (events : List (Event n K V)) : List (Event n K V) :=
  events.foldr (insertOrdered le) []

end Event

/-- A map as it stands after a call. -/
inductive Standing
  /-- The map has no handle. -/
  | unreachable
  | at (size : Nat) (phase : Phase)

/-- What a session tells after a call. -/
structure Reply (n : Nat) (K V : Type) where
  /-- What the call has come to, unless the caller has given up. -/
  outcome : Option (Outcome (Answer V))
  events : Option (List (Event n K V))
  standing : Option Standing

/-- A deployment that is being served.  Its journal begins with the last report. -/
structure Session (n : Nat) (S K V : Type) where
  plan : Plan n S K V
  crew : Crew n S K V

namespace Session

/-- How deep the calls of hooks may be nested in a session: deeper than they can ever get. -/
def depth : Nat := 1000000000000000000

/-- A session on maps that have just been built, each listing the entries of a scan as they
are stored. -/
def begin (settings : Fin n → Settings n S K V) (drive : Drive) (clockRuns : Bool) (memory : S) :
    Session n S K V where
  plan := { settings, enumeration := fun _ => .asStored }
  crew := { stage := { deployment := .fresh drive clockRuns memory } }

def deployment (session : Session n S K V) : Deployment n S K V := session.crew.stage.deployment

def setDeployment (session : Session n S K V) (deployment : Deployment n S K V) :
    Session n S K V :=
  { session with crew.stage.deployment := deployment }

def standing (session : Session n S K V) (map : Fin n) : Standing :=
  let state := session.deployment.state map
  if state.hasHandle then .at state.store.size state.phase else .unreachable

/-- What has happened since the last report, or since groups of calls were answered after it,
and belongs in a report. -/
def report (le : K → K → Bool) (session : Session n S K V) : List (Event n K V) :=
  let events := (session.deployment.journal.takeWhile fun event => !event.isGathered).reverse
  let isReported := Event.isReported session.plan session.deployment.scheduler.drive
  Event.ordered le (events.filter isReported)

/-- The session with everything that has happened taken as reported. -/
def markReported (session : Session n S K V) : Session n S K V :=
  session.setDeployment { session.deployment with journal := [] }

variable [DecidableEq K]

def serve (session : Session n S K V) (map : Fin n) (call : Call n K V) :
    Option (Outcome (Answer V)) × Session n S K V :=
  let (outcome, crew) := session.crew.serve session.plan depth map call
  (outcome, { session with crew })

/-- Whether a timed scheduler has come to rest when the call is over, so that a report shows
what its runs have done. -/
def settles : Call n K V → Bool
  | .ask [] (.map (.awaitSize _)) | .ask [] (.map .stop) => true
  | _ => false

/-- Serves a call made at a map and reports. -/
def step (le : K → K → Bool) (session : Session n S K V) (map : Fin n) (call : Call n K V) :
    Reply n K V × Session n S K V :=
  let (outcome, session) := session.serve map call
  if !session.deployment.scheduler.drive.isTimed then
    (⟨outcome, some (session.report le), some (session.standing (call.path.first map))⟩,
      session.markReported)
  else if settles call then (⟨outcome, some (session.report le), none⟩, session.markReported)
  else (⟨outcome, none, none⟩, session)

/-- Shows entries to the hooks of a map, outside of any pass. -/
def probeAll (session : Session n S K V) (map : Fin n) :
    List (Entry K V) → List (Outcome Bool × Bool) × Session n S K V
  | [] => ([], session)
  | entry :: rest =>
      let (finding, deployment) :=
        session.plan.run depth (Operation.probe map entry) session.deployment
      let (findings, session) := (session.setDeployment deployment).probeAll map rest
      (finding :: findings, session)

end Session

end ExpiringMap
