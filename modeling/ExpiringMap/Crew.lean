import ExpiringMap.Routine

/-!
# Threads at work

Several threads work on a deployment at the same time: a caller, which makes a call, the workers
of a pool, each of which makes one run of a job, and the branches of those that have divided.  A
thread goes on with its routine until it comes to its end, goes to sleep, has to wait for a lock
that another thread holds, or divides.  Its branches begin at once, and it goes on as soon as all
of them have come to their end.  Time passes in beats, and only while the caller has not come to
its end.  At each beat the workers go on, then the caller, and then jobs that are due are given
to workers, of whom there are no more than the pool has threads.  Beats at which nothing can
happen are passed over.
-/

namespace ExpiringMap

variable {n : Nat} {S K V : Type}

/-! ## Deeds of one thread among others -/

/-- A deployment, and who holds the locks of its maps. -/
structure Stage (n : Nat) (S K V : Type) where
  deployment : Deployment n S K V
  locks : Vector Lock n := Vector.replicate n .free
  /-- How many threads there have been, which is also the name of the next one. -/
  begun : Nat := 0

namespace Stage

def moment (stage : Stage n S K V) : Nat := stage.deployment.scheduler.age

def lock (stage : Stage n S K V) (map : Fin n) : Lock := stage.locks.get map

/-- Whether a thread may do a deed now.  Nothing but a lock that another thread holds can keep
it from that. -/
def allows (plan : Plan n S K V) (stage : Stage n S K V) (thread : ThreadId) :
    Deed n S K V → Bool
  | .act (.map map .lock) => !(plan.settings map).locking.excludes || (stage.lock map).admits thread
  | _ => true

def locksAfter (plan : Plan n S K V) (stage : Stage n S K V) (thread : ThreadId) :
    Deed n S K V → Vector Lock n
  | .act (.map map .lock) =>
      if (plan.settings map).locking.excludes then
        stage.locks.set map.val ((stage.lock map).enter thread) map.isLt
      else stage.locks
  | .act (.map map .unlock) => stage.locks.set map.val (stage.lock map).leave map.isLt
  | _ => stage.locks

def perform [DecidableEq K] (plan : Plan n S K V) (stage : Stage n S K V) (thread : ThreadId)
    (deed : Deed n S K V) : deed.Answer × Stage n S K V :=
  let (answer, deployment) := plan.perform deed stage.deployment
  (answer, { stage with deployment, locks := stage.locksAfter plan thread deed })

def withThread (stage : Stage n S K V) : Stage n S K V := { stage with begun := stage.begun + 1 }

end Stage

/-- What a thread has come to. -/
inductive Progress (n : Nat) (S K V : Type)
  | ended (outcomes : List (Outcome (Answer V)))
  /-- The thread has the rest of its routine before it, and sleeps until a moment. -/
  | underWay (thread : ThreadId) (wakes : Nat) (rest : Routine n S K V)
  /-- The thread has divided and goes on with what its branches come to. -/
  | divided (thread : ThreadId) (branches : List (Progress n S K V))
      (next : List (List (Outcome (Answer V))) → Routine n S K V)

namespace Progress

def outcomes? : Progress n S K V → Option (List (Outcome (Answer V)))
  | ended outcomes => some outcomes
  | underWay .. | divided .. => none

def isUnderWay (progress : Progress n S K V) : Bool := progress.outcomes?.isNone

mutual

/-- The moments from which on the thread or one of its branches may go on. -/
def moments : Progress n S K V → List Nat
  | .ended _ => []
  | .underWay _ wakes _ => [wakes]
  | .divided _ branches _ => momentsOfAll branches
termination_by structural progress => progress

def momentsOfAll : List (Progress n S K V) → List Nat
  | [] => []
  | thread :: rest => thread.moments ++ momentsOfAll rest
termination_by structural threads => threads

end

end Progress

section Advance

variable [DecidableEq K]

mutual

/-- A thread goes on with a routine as far as it can without a pause. -/
def Routine.advance (plan : Plan n S K V) (thread : ThreadId) :
    Routine n S K V → Stage n S K V → Progress n S K V × Stage n S K V
  | .done outcomes, stage => (.ended outcomes, stage)
  | .step (.act (.sleep ns)) next, stage =>
      (.underWay thread (stage.moment + ns) (next ()), stage)
  | .step deed next, stage =>
      if stage.allows plan thread deed then
        let (answer, stage) := stage.perform plan thread deed
        Routine.advance plan thread (next answer) stage
      else (.underWay thread stage.moment (.step deed next), stage)
  | .divide branches next, stage =>
      let (branches, stage) := Routine.advanceAll plan branches stage
      match branches.mapM Progress.outcomes? with
      | some outcomes => Routine.advance plan thread (next outcomes) stage
      | none => (.divided thread branches next, stage)
termination_by structural routine => routine

def Routine.advanceAll (plan : Plan n S K V) :
    List (Routine n S K V) → Stage n S K V → List (Progress n S K V) × Stage n S K V
  | [], stage => ([], stage)
  | routine :: rest, stage =>
      let (thread, stage) := Routine.advance plan stage.begun routine stage.withThread
      let (threads, stage) := Routine.advanceAll plan rest stage
      (thread :: threads, stage)
termination_by structural routines => routines

end

mutual

/-- A thread goes on if it is awake, and so do its branches. -/
def Progress.resume (plan : Plan n S K V) :
    Progress n S K V → Stage n S K V → Progress n S K V × Stage n S K V
  | .ended outcomes, stage => (.ended outcomes, stage)
  | .underWay thread wakes rest, stage =>
      if wakes ≤ stage.moment then rest.advance plan thread stage
      else (.underWay thread wakes rest, stage)
  | .divided thread branches next, stage =>
      let (branches, stage) := Progress.resumeAll plan branches stage
      match branches.mapM Progress.outcomes? with
      | some outcomes => (next outcomes).advance plan thread stage
      | none => (.divided thread branches next, stage)
termination_by structural progress => progress

def Progress.resumeAll (plan : Plan n S K V) :
    List (Progress n S K V) → Stage n S K V → List (Progress n S K V) × Stage n S K V
  | [], stage => ([], stage)
  | thread :: rest, stage =>
      let (thread, stage) := thread.resume plan stage
      let (rest, stage) := Progress.resumeAll plan rest stage
      (thread :: rest, stage)
termination_by structural threads => threads

end

end Advance

/-! ## Callers and workers -/

/-- The threads of a pool at work. -/
structure Crew (n : Nat) (S K V : Type) where
  stage : Stage n S K V
  /-- The runs that have not come to their end. -/
  workers : List (Progress n S K V) := []

namespace Crew

/-- How far beats are apart, in nanoseconds. -/
def beat : Nat := 10000

/-- At how many beats a caller is waited for until it is given up.  Beats that are passed over
do not count, so a caller that waits for a lock has a minute. -/
def patience : Nat := 6000000

/-- Whether there is a thread for another run. -/
def hasIdleThread (crew : Crew n S K V) : Bool :=
  decide (crew.workers.length < crew.stage.deployment.scheduler.drive.threads)

/-- The moments at which something can happen: threads go on, or jobs are due for which there
is a thread. -/
def moments (crew : Crew n S K V) (caller : Progress n S K V) : List Nat :=
  let scheduler := crew.stage.deployment.scheduler
  let due := if crew.hasIdleThread then scheduler.pendingMoments else []
  caller.moments ++ Progress.momentsOfAll crew.workers ++ due

/-- How much time passes until the next beat at which something can happen. -/
def pause (crew : Crew n S K V) (caller : Progress n S K V) : Nat :=
  match (crew.moments caller).min? with
  | none => beat
  | some earliest => max 1 ((earliest - crew.stage.moment + (beat - 1)) / beat) * beat

variable [DecidableEq K]

def elapse (plan : Plan n S K V) (crew : Crew n S K V) (ns : Nat) : Crew n S K V :=
  let stage := { crew.stage with deployment := crew.stage.deployment.elapse ns }
  let (workers, stage) := Progress.resumeAll plan crew.workers stage
  { stage, workers := workers.filter Progress.isUnderWay }

/-- Gives a job that is due to a worker, if there is one without work. -/
def employ (plan : Plan n S K V) (depth : Nat) (crew : Crew n S K V) (id : Nat) :
    Crew n S K V :=
  if crew.hasIdleThread && crew.stage.deployment.scheduler.isDue id then
    let (workers, stage) := Routine.advanceAll plan [plan.jobRoutine depth id] crew.stage
    { stage, workers := crew.workers ++ workers.filter Progress.isUnderWay }
  else crew

def employAll (plan : Plan n S K V) (depth : Nat) (crew : Crew n S K V) : Crew n S K V :=
  crew.stage.deployment.scheduler.dueJobs.foldl (employ plan depth) crew

/-- Lets time pass, so many beats at the most, until the caller has come to its end. -/
def attend (plan : Plan n S K V) (depth : Nat) :
    (beats : Nat) → Progress n S K V → Crew n S K V → Progress n S K V × Crew n S K V
  | 0, caller, crew => (caller, crew)
  | beats + 1, caller, crew =>
      if caller.isUnderWay then
        let crew := crew.elapse plan (crew.pause caller)
        let (caller, stage) := caller.resume plan crew.stage
        attend plan depth beats caller ({ crew with stage }.employAll plan depth)
      else (caller, crew)

/-- Serves a call made at a map; gives what it has come to, and nothing if the caller has been
given up. -/
def serve (plan : Plan n S K V) (depth : Nat) (map : Fin n) (call : Call n K V)
    (crew : Crew n S K V) : Option (Outcome (Answer V)) × Crew n S K V :=
  let routine := plan.routine depth map call
  let (caller, stage) := routine.advance plan crew.stage.begun crew.stage.withThread
  let (caller, crew) := { crew with stage }.attend plan depth patience caller
  (caller.outcomes?.bind List.head?, crew)

end Crew

end ExpiringMap
