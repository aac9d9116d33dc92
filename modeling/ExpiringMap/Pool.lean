import ExpiringMap.Scheduler

/-!
# A pool on its own

A timed scheduler without a map: somebody schedules one task after the other, waits each time
until the task has run as often as wanted or for so long that there is no hope of another run,
and cancels it.  Whoever asks for a first run at a moment that cannot be named gets no answer to
anything.
-/

namespace ExpiringMap

/-- A timed scheduler whose jobs all belong to the same owner. -/
abbrev Pool := Scheduler 1

namespace Pool

def ofThreads (threads : Nat) : Except Misuse Pool := do
  let drive ← Drive.pool threads
  return { drive }

inductive Task
  | isShutdown
  | shutdown
  /-- Schedule a task and wait until it has run so often, for five seconds at most. -/
  | schedule (initialDelay delay : Duration) (runs : Nat)

inductive Finding
  | done
  | truth (b : Bool)
  | runs (count : Nat)
  | refused (error : Error)

/-- The first moment that a pool cannot name, in nanoseconds of its life.  Seconds are counted in
63 bits from a moment before the pool was made, an hour or more. -/
def horizon : Nat := 9223372036854772208000000000

/-- How long runs are waited for at most, in nanoseconds. -/
def patience : Nat := 5000000000

/-- Waits for runs of a job, so many more and until a moment at the latest, after `count` runs;
gives the number of runs there have been. -/
def awaitRuns (id deadline : Nat) : (runs count : Nat) → Pool → Nat × Pool
  | 0, count, pool => (count, pool)
  | runs + 1, count, pool =>
      match pool.pending? id with
      | none => (count, pool.elapse (deadline - pool.age))
      | some due =>
          if due ≤ deadline then
            let pool := pool.elapse (due - pool.age)
            let pool := SchedulerAct.apply (SchedulerAct.apply pool (.begin id)) (.finish id)
            awaitRuns id deadline runs (count + 1) pool
          else (count, pool.elapse (deadline - pool.age))

def perform (pool : Pool) : Task → Except Misuse (Finding × Pool)
  | .isShutdown => return (.truth pool.isShutdown, pool)
  | .shutdown => return (.done, SchedulerAct.apply pool .shutdown)
  | .schedule initialDelay delay runs =>
      let act := SchedulerAct.schedule 0 initialDelay delay
      match (act.answer pool : Except Error Accepted) with
      | .error error => return (.refused error, pool)
      | .ok accepted =>
          if pool.age + initialDelay.ns < horizon then
            let deadline := pool.age + patience
            let (count, pool) := awaitRuns accepted.id deadline runs 0 (act.apply pool)
            return (.runs count, SchedulerAct.apply pool (.cancel 0 accepted.id))
          else
            throw .delayOverflow

/-- Does one task after the other, unless there is a misuse among them. -/
def performAll (pool : Pool) : List Task → Except Misuse (List Finding)
  | [] => return []
  | task :: rest => do
      let (finding, pool) ← pool.perform task
      let findings ← pool.performAll rest
      return finding :: findings

end Pool

end ExpiringMap
