import ExpiringMap.Operation.Basic

/-!
# The purge pass

A pass reads the clock once and scans the store for what has expired by then.  The screening
hook sees every entry of the scan; those it lets through are the candidates.  The eviction
hook is told of the candidates, oldest deadline first, and only when it has been told of all
of them are the confirmed ones taken out, each only if its key still has the very entry that
the scan found.  The pass goes by the entries as they were in the scan, whatever the hooks do
to the store meanwhile.
-/

namespace ExpiringMap.Operation

variable {n : Nat} {K V : Type}

/-- Shows entries to the screening hook and keeps those it lets through.  A panic of the hook
ends the screening. -/
def screen (map : Fin n) : List (Entry K V) → Operation n K V (Outcome (List (Entry K V)))
  | [] => return .ok []
  | entry :: rest => do
      match ← consult map (.screening entry) with
      | .error panic => return .error panic
      | .ok valid =>
          match ← screen map rest with
          | .error panic => return .error panic
          | .ok accepted => return .ok (if valid then entry :: accepted else accepted)

/-- Tells the eviction hook of an entry.  A hook that panics has refused. -/
def notify (map : Fin n) (entry : Entry K V) : Operation n K V Bool := do
  match ← consult map (.eviction entry.key entry.value) with
  | .ok confirmed => return confirmed
  | .error panic =>
      log map (.hookPanicked panic)
      return false

/-- Shows an entry to both hooks, whatever the first of them says. -/
def probe (map : Fin n) (entry : Entry K V) : Operation n K V (Outcome Bool × Bool) := do
  let valid ← consult map (.screening entry)
  let confirmed ← notify map entry
  return (valid, confirmed)

/-- Tells the eviction hook of one entry after the other; gives those it confirmed. -/
def notifyAll (map : Fin n) : List (Entry K V) → Operation n K V (List (Entry K V))
  | [] => return []
  | entry :: rest => do
      let confirmed ← notify map entry
      let others ← notifyAll map rest
      return if confirmed then entry :: others else others

/-- Takes entries out of the store, unless their keys have been given other entries; gives
the number of those taken out. -/
def removeAll (map : Fin n) : List (Entry K V) → Operation n K V Nat
  | [] => return 0
  | entry :: rest => do
      let removed ← removeIfSame map entry.key entry.seq
      let others ← removeAll map rest
      return if removed then others + 1 else others

/-- Tells the eviction hook of the candidates and takes out those it confirms. -/
def evict (map : Fin n) (candidates : List (Entry K V)) : Operation n K V Unit := do
  let confirmed ← notifyAll map (Entry.inOrder candidates)
  let evicted ← removeAll map confirmed
  log map (.passSummary evicted candidates.length)

/-- A purge pass.  It ends in a panic if the screening hook does, and then has neither told
the eviction hook of anything nor taken anything out. -/
def pass (map : Fin n) : Operation n K V (Outcome Unit) :=
  guarded map do
    let count ← size map
    log map (.entryCount count)
    if (← size map) = 0 then
      return .ok ()
    let now ← now
    let found ← scan map now
    match ← screen map found with
    | .error panic => return .error panic
    | .ok [] => return .ok ()
    | .ok (first :: others) =>
        evict map (first :: others)
        return .ok ()

/-- The pass of a scheduled run.  It takes place only in a phase that allows runs, and a
panic ends in the log, so that the schedule goes on. -/
def scheduledPass (map : Fin n) : Operation n K V Unit := do
  if (← readPhase map).allowsRuns then
    log map .runBegins
    match ← pass map with
    | .ok () => return
    | .error panic => log map (.passPanicked panic)
  else
    log map .runNotAllowed

end ExpiringMap.Operation
