import ExpiringMap.Operation.Access
import ExpiringMap.Operation.Service

/-!
# Serving requests

Every request is served by one operation, which ends with an answer or, if a screening hook
panics in a pass that the request asked for, with that panic.
-/

namespace ExpiringMap.Operation

variable {n : Nat} {S K V : Type}

/-- How long a caller waits for a size at most, in milliseconds. -/
def patience : Nat := 5000

/-- What a map of these settings does when it is asked. -/
def serveMap (settings : Settings n S K V) (map : Fin n) :
    MapRequest K V → Operation n K V (Outcome (Answer V))
  | .get key => return .ok (.value (← get map key))
  | .put key value timeout => return .ok (.value (← put map key value timeout))
  | .putIfAbsent key value timeout => return .ok (.value (← putIfAbsent map key value timeout))
  | .remove key => return .ok (.value (← remove map key))
  | .size => return .ok (.count (← size map))
  | .isEmpty => return .ok (.truth (decide ((← size map) = 0)))
  | .purge => return (← pass map).map fun _ => .done
  | .start => return .ok (.status (← start map settings.interval))
  | .stop => return .ok (.status (← stop map))
  | .phase => return .ok (.phase (← readPhase map))
  | .name => return .ok (.name settings.name)
  | .interval => return .ok (.interval settings.interval)
  | .isSchedulerShutdown => return .ok (.truth (← isShutdown))
  | .describe layout => do
      let count ← size map
      let phase ← readPhase map
      return .ok (.text ((settings.record count phase).render layout))
  | .addHandle => do
      addHandle map
      return .ok .done
  | .awaitSize count => return .ok (.truth (← awaitSize map count patience))

def serve (settings : Settings n S K V) (map : Fin n) :
    Request K V → Operation n K V (Outcome (Answer V))
  | .map request => return (← withHandle map (serveMap settings map request)).getD (.ok .noHandle)
  | .dropHandle => return .ok (.truth (← dropHandle map))
  | .advance ns => return .ok (.instant (← advance ns))
  | .rewind ns => return .ok (.instant (← rewind ns))
  | .sleep milliseconds => do
      sleep (milliseconds * millisecond)
      return .ok .done
  | .shutdown => do
      shutdown
      return .ok .done
  | .refuse error => do
      refuse error
      return .ok .done
  | .runJob id => return .ok (.run (← runJob id))
  | .tick => return .ok (.ranJobs (← tick))

end ExpiringMap.Operation
