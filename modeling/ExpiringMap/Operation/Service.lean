import ExpiringMap.Operation.Pass

/-!
# Jobs, lifecycle and holds

A map that is started has a job on the scheduler, whose task is a scheduled pass.  The task
does not hold its map between runs: it takes a use for each run, and finds nothing to do
when the map is gone.  Whoever gives up the last hold on a map cancels its job.
-/

namespace ExpiringMap.Operation

variable {n : Nat} {K V α : Type}

/-- What happens when the last hold on a map has been given up. -/
abbrev Retirement (n : Nat) (K V : Type) := Fin n → Operation n K V Unit

def release (retirement : Retirement n K V) (map : Fin n) : Operation n K V Unit := do
  if ← letGo map then
    retirement map

/-- The task of a map's job. -/
def task (retirement : Retirement n K V) (map : Fin n) : Operation n K V Unit := do
  if ← hold map then
    scheduledPass map
    release retirement map

/-- Runs a job, unless a run of it is in progress. -/
def runOnce (retirement : Retirement n K V) (id : Nat) : Operation n K V RunResult := do
  match ← beginRun id with
  | .noJob => return .noJob
  | .busy => return .busy
  | .begun owner =>
      task retirement owner
      finishRun id
      return .ran

/-- Cancels a job of a map, which some schedulers run once more in the course of it. -/
def cancel (retirement : Retirement n K V) (map : Fin n) (id : Nat) : Operation n K V Unit := do
  if ← markCancelled map id then
    let _ ← runOnce retirement id

/-- Cancels the job of a map that nobody holds any more, if it has one.  A run that comes of
the cancellation finds the map gone, so it gives up no hold. -/
def retire : Retirement n K V := fun map => do
  match ← takeJob map with
  | none => return
  | some id => cancel (fun _ => return) map id

def runJob (id : Nat) : Operation n K V RunResult := runOnce retire id

/-- Starts a map: schedules its passes, the first at once and the others each an interval
after the one before.  A start that fails leaves the map stopped. -/
def start (map : Fin n) (interval : Duration) : Operation n K V (Except Error Unit) := do
  match ← shift map .start .stopped .starting with
  | .error error => return .error error
  | .ok () =>
      if ← isShutdown then
        setPhase map .stopped
        return .error .schedulerShutdown
      match ← schedule map .zero interval with
      | .error error =>
          setPhase map .stopped
          return .error error
      | .ok accepted =>
          if accepted.runsAtOnce then
            let _ ← runJob accepted.id
          keepJob map accepted.id
          setPhase map .started
          return .ok ()

/-- Stops a map: cancels its job and takes all entries out. -/
def stop (map : Fin n) : Operation n K V (Except Error Unit) := do
  match ← shift map .stop .started .stopping with
  | .error error => return .error error
  | .ok () =>
      match ← takeJob map with
      | some id => cancel retire map id
      | none => pure ()
      guarded map (clear map)
      setPhase map .stopped
      return .ok ()

/-- Does something with a map through one of its handles, holding the map while it lasts. -/
def withHandle (map : Fin n) (body : Operation n K V α) : Operation n K V (Option α) := do
  if ← borrow map then
    let result ← body
    release retire map
    return some result
  else
    return none

/-- Gives up the last handle of a map; tells whether there was one. -/
def dropHandle (map : Fin n) : Operation n K V Bool := do
  if ← takeHandle map then
    release retire map
    return true
  else
    return false

/-- Runs those of the `count` jobs from `id` on that are ready when their turn comes; gives the
ids of those that ran. -/
def runReady : (count id : Nat) → Operation n K V (List Nat)
  | 0, _ => return []
  | count + 1, id => do
      if ← isReady id then
        let _ ← runJob id
        let others ← runReady count (id + 1)
        return id :: others
      else
        runReady count (id + 1)

/-- Runs every job there is now that is ready when its turn comes. -/
def tick : Operation n K V (List Nat) := do
  runReady (← jobCount) 0

/-! ## Waiting -/

/-- A millisecond in nanoseconds. -/
def millisecond : Nat := 1000000

/-- Waits until a map has so many entries, looking once a millisecond. -/
def awaitSize (map : Fin n) (count : Nat) : (patience : Nat) → Operation n K V Bool
  | 0 => return (← size map) = count
  | patience + 1 => do
      if (← size map) = count then
        return true
      else
        sleep millisecond
        awaitSize map count patience

end ExpiringMap.Operation
