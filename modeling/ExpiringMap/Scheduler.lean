import ExpiringMap.Phase
import ExpiringMap.Request

/-!
# The scheduler

A scheduler keeps a table of jobs.  A job belongs to the map that scheduled it and stays in
the table for good: cancelling it only means that it is not due any more.  Maps ask for a
first run after an initial delay and for further runs a fixed delay after the end of the one
before.  A scheduler driven by hand runs a job when it is told to, and on demand also within
the call that schedules or cancels it; a timed one runs each job when it is due, on one of its
threads.  A timed scheduler that is shut down still makes the runs that are pending, but no
run after those.
-/

namespace ExpiringMap

/-- A task of the map `owner`, to be run again and again. -/
structure Job (n : Nat) where
  owner : Fin n
  delay : Duration
  cancelled : Bool := false
  running : Bool := false
  /-- When the next run is due, in nanoseconds of the scheduler's life; `none` if there will
  not be one. -/
  due : Option Nat

/-- What makes a scheduler run its jobs. -/
inductive Drive
  /-- Somebody's hand; the two flags tell whether a job is also run within the call that
  schedules it, and within the one that cancels it. -/
  | byHand (runsOnSchedule runsOnCancel : Bool)
  /-- The time that passes; so many threads are there for the runs. -/
  | timed (threads : Nat)
deriving DecidableEq

namespace Drive

/-- What drives a pool of so many threads, of which there has to be one at least. -/
def pool (threads : Nat) : Except Misuse Drive :=
  if threads = 0 then .error .noThreads else .ok (.timed threads)

def isTimed : Drive → Bool
  | byHand .. => false
  | timed _ => true

/-- How many jobs can be run at the same time beside what callers do. -/
def threads : Drive → Nat
  | byHand .. => 0
  | timed threads => threads

end Drive

/-- A scheduler with its jobs, the oldest first; the place of a job in the list is its id. -/
structure Scheduler (n : Nat) where
  drive : Drive := .byHand false false
  isShutdown : Bool := false
  /-- The error with which tasks are refused although the scheduler is not shut down. -/
  refusal : Option Error := none
  jobs : List (Job n) := []
  /-- How long the scheduler has lived, in nanoseconds. -/
  age : Nat := 0

/-- What an attempt to begin a run of a job comes to. -/
inductive Beginning (n : Nat)
  | noJob
  | busy
  | begun (owner : Fin n)

/-- A task that was accepted. -/
structure Accepted where
  id : Nat
  /-- Whether the scheduler runs the task before it returns. -/
  runsAtOnce : Bool

/-- What can be asked of a scheduler. -/
inductive SchedulerAct (n : Nat)
  | isShutdown
  | shutdown
  | refuse (error : Option Error)
  | schedule (owner : Fin n) (initialDelay delay : Duration)
  /-- Cancel a job that a map gives up; the answer tells whether it is run once more before the
  call returns. -/
  | cancel (map : Fin n) (id : Nat)
  | begin (id : Nat)
  | finish (id : Nat)
  | jobCount
  /-- Whether a tick runs the job. -/
  | isReady (id : Nat)

@[reducible]
def SchedulerAct.Answer {n : Nat} : SchedulerAct n → Type
  | isShutdown => Bool
  | shutdown => Unit
  | refuse _ => Unit
  | schedule .. => Except Error Accepted
  | cancel .. => Bool
  | begin _ => Beginning n
  | finish _ => Unit
  | jobCount => Nat
  | isReady _ => Bool

/-- What happens to a scheduler. -/
inductive SchedulerEvent (n : Nat)
  | shutdown
  | refusing (error : Option Error)
  | scheduled (owner : Fin n) (id : Nat) (initialDelay delay : Duration)
  | refused (owner : Fin n) (initialDelay delay : Duration)
  | cancelled (map : Fin n) (id : Nat)
  | began (id : Nat)
  | finished (id : Nat)

namespace Scheduler

variable {n : Nat}

def modifyJob (scheduler : Scheduler n) (id : Nat) (change : Job n → Job n) : Scheduler n :=
  { scheduler with jobs := scheduler.jobs.modify id change }

def elapse (scheduler : Scheduler n) (ns : Nat) : Scheduler n :=
  { scheduler with age := scheduler.age + ns }

def isReady (scheduler : Scheduler n) (id : Nat) : Bool :=
  match scheduler.jobs[id]? with
  | some job => !job.cancelled && !job.running && !scheduler.isShutdown
  | none => false

/-- When the pending run of a job is due, if there is one. -/
def pending? (scheduler : Scheduler n) (id : Nat) : Option Nat :=
  match scheduler.jobs[id]? with
  | some job => if job.cancelled || job.running then none else job.due
  | none => none

def pendingMoments (scheduler : Scheduler n) : List Nat :=
  (List.range scheduler.jobs.length).filterMap scheduler.pending?

def isDue (scheduler : Scheduler n) (id : Nat) : Bool :=
  (scheduler.pending? id).any fun moment => decide (moment ≤ scheduler.age)

/-- The jobs that it is time to run, the one that is due for the longest time first. -/
def dueJobs (scheduler : Scheduler n) : List Nat :=
  let due := (List.range scheduler.jobs.length).filter scheduler.isDue
  due.mergeSort fun first second =>
    decide ((scheduler.pending? first).getD 0 ≤ (scheduler.pending? second).getD 0)

/-- When the run of a job is due that follows one that ends now.  There is none once the
scheduler is shut down. -/
def dueAfter (scheduler : Scheduler n) (delay : Duration) : Option Nat :=
  if scheduler.isShutdown then none else some (scheduler.age + delay.ns)

def runsOnSchedule (scheduler : Scheduler n) : Bool :=
  match scheduler.drive with
  | .byHand onSchedule _ => onSchedule
  | .timed _ => false

def runsOnCancel (scheduler : Scheduler n) : Bool :=
  match scheduler.drive with
  | .byHand _ onCancel => onCancel
  | .timed _ => false

/-- Why a task is refused, if it is. -/
def objection? (scheduler : Scheduler n) : Option Error :=
  match scheduler.refusal with
  | some error => some error
  | none =>
      match scheduler.drive with
      | .byHand .. => none
      | .timed _ => if scheduler.isShutdown then some .schedulerShutdown else none

/-- What an attempt to begin a run of a job comes to now. -/
def beginning (scheduler : Scheduler n) (id : Nat) : Beginning n :=
  match scheduler.jobs[id]? with
  | none => .noJob
  | some job => if job.running then .busy else .begun job.owner

end Scheduler

namespace SchedulerAct

variable {n : Nat}

def answer (scheduler : Scheduler n) : (act : SchedulerAct n) → act.Answer
  | isShutdown => scheduler.isShutdown
  | shutdown => ()
  | refuse _ => ()
  | schedule .. =>
      match scheduler.objection? with
      | some error => (.error error : Except Error Accepted)
      | none => (.ok ⟨scheduler.jobs.length, scheduler.runsOnSchedule⟩ : Except Error Accepted)
  | cancel .. => scheduler.runsOnCancel
  | begin id => scheduler.beginning id
  | finish _ => ()
  | jobCount => scheduler.jobs.length
  | isReady id => scheduler.isReady id

/-- The scheduler after an act.  A job that ends a run is due again after its delay. -/
def apply (scheduler : Scheduler n) : SchedulerAct n → Scheduler n
  | isShutdown | jobCount | isReady _ => scheduler
  | shutdown => { scheduler with isShutdown := true }
  | refuse error => { scheduler with refusal := error }
  | schedule owner initialDelay delay =>
      match scheduler.objection? with
      | some _ => scheduler
      | none =>
          { scheduler with
            jobs := scheduler.jobs ++
              [{ owner, delay, due := some (scheduler.age + initialDelay.ns) }] }
  | cancel _ id => scheduler.modifyJob id fun job => { job with cancelled := true }
  | begin id => scheduler.modifyJob id fun job => { job with running := true }
  | finish id =>
      scheduler.modifyJob id fun job =>
        { job with running := false, due := scheduler.dueAfter job.delay }

def events (scheduler : Scheduler n) : SchedulerAct n → List (SchedulerEvent n)
  | isShutdown | jobCount | isReady _ => []
  | shutdown => [.shutdown]
  | refuse error => [.refusing error]
  | schedule owner initialDelay delay =>
      match scheduler.objection? with
      | some _ => [.refused owner initialDelay delay]
      | none => [.scheduled owner scheduler.jobs.length initialDelay delay]
  | cancel map id => [.cancelled map id]
  | begin id =>
      match scheduler.beginning id with
      | .begun _ => [.began id]
      | .noJob | .busy => []
  | finish id => [.finished id]

end SchedulerAct

end ExpiringMap
