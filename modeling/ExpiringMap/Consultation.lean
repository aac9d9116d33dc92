import ExpiringMap.Operation.Serve

/-!
# Operations run through at once

Here operations meet hooks.  A hook that is consulted runs its script, and each request of the
script is served by an operation that may consult hooks again.  Calls can be nested so many
deep; a hook that is consulted beyond that answers without its script and lets the eviction
pass.  Nobody else comes in between, so groups of calls are served one after the other.
-/

namespace ExpiringMap

variable {n : Nat} {S K V : Type}

/-- How the script of a hook of a map is run through. -/
abbrev Consultation (n : Nat) (S K V : Type) :=
  Fin n → Script n S K V → Deployment n S K V → Outcome Bool × Deployment n S K V

/-- Runs the script of a hook of a map, given how its calls are served. -/
def Script.run
    (serve : Call n K V → Deployment n S K V → Outcome (Answer V) × Deployment n S K V)
    (map : Fin n) : Script n S K V → Deployment n S K V → Outcome Bool × Deployment n S K V
  | .answer verdict, deployment => (verdict, deployment)
  | .call made remember next, deployment =>
      let (outcome, deployment) := serve made deployment
      let (memory, deployment) := deployment.resume map made outcome (remember outcome)
      (next outcome memory).run serve map deployment

namespace Plan

/-- Consults a hook.  One that the policy does not have raises no objection. -/
def consult (plan : Plan n S K V) (consultation : Consultation n S K V) (map : Fin n)
    (hook : Hook K V) (deployment : Deployment n S K V) : Outcome Bool × Deployment n S K V :=
  match plan.enter deployment map hook with
  | (none, deployment) => (.ok true, deployment)
  | (some script, deployment) =>
      let (verdict, deployment) := consultation map script deployment
      (verdict, deployment.leave map hook verdict)

/-- What is done for a request made at a map. -/
def operation (plan : Plan n S K V) (map : Fin n) (request : Request K V) :
    Operation n K V (Outcome (Answer V)) :=
  Operation.serve (plan.settings map) map request

variable [DecidableEq K]

def respond (plan : Plan n S K V) (consultation : Consultation n S K V) :
    (step : Step n K V) → Deployment n S K V → step.Answer × Deployment n S K V
  | .act act, deployment => deployment.perform plan.enumeration act
  | .consult map hook, deployment => plan.consult consultation map hook deployment

mutual

/-- Serves a call made at a map, given how scripts are run. -/
def serve (plan : Plan n S K V) (consultation : Consultation n S K V) (map : Fin n) :
    Call n K V → Deployment n S K V → Outcome (Answer V) × Deployment n S K V
  | .ask path request, deployment =>
      (plan.operation (path.last map) request).run (plan.respond consultation) deployment
  | .together path groups, deployment =>
      let (outcomes, deployment) := plan.serveGroups consultation (path.last map) groups deployment
      (.ok (.groups outcomes), deployment.note [.gathered])
termination_by structural call => call

def serveCalls (plan : Plan n S K V) (consultation : Consultation n S K V) (map : Fin n) :
    List (Call n K V) → Deployment n S K V → List (Outcome (Answer V)) × Deployment n S K V
  | [], deployment => ([], deployment)
  | call :: rest, deployment =>
      let (outcome, deployment) := plan.serve consultation map call deployment
      let (outcomes, deployment) := plan.serveCalls consultation map rest deployment
      (outcome :: outcomes, deployment)
termination_by structural calls => calls

def serveGroups (plan : Plan n S K V) (consultation : Consultation n S K V) (map : Fin n) :
    List (List (Call n K V)) → Deployment n S K V →
      List (List (Outcome (Answer V))) × Deployment n S K V
  | [], deployment => ([], deployment)
  | calls :: rest, deployment =>
      let (outcomes, deployment) := plan.serveCalls consultation map calls deployment
      let (others, deployment) := plan.serveGroups consultation map rest deployment
      (outcomes :: others, deployment)
termination_by structural groups => groups

end

/-- How scripts are run whose calls may be nested `depth` deep. -/
def consultation (plan : Plan n S K V) : (depth : Nat) → Consultation n S K V
  | 0 => fun _ _ deployment => (.ok true, deployment)
  | depth + 1 => fun map script deployment =>
      script.run (plan.serve (plan.consultation depth) map) map deployment

/-- Runs an operation, the calls of its hooks nested `depth` deep at most. -/
def run {α : Type} (plan : Plan n S K V) (depth : Nat) (operation : Operation n K V α)
    (deployment : Deployment n S K V) : α × Deployment n S K V :=
  operation.run (plan.respond (plan.consultation depth)) deployment

end Plan

end ExpiringMap
