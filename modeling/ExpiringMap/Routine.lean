import ExpiringMap.Consultation

/-!
# Routines

A routine is what a thread does, with everything written out that hooks do, so that others can
come in between any two of its deeds, also within the call of a hook.  Where groups of calls are
made at the same time it divides into branches, and goes on when all of them have come to their
end.  Routines are put together from passages, each of which is told how the routine goes on
after it: what remains to be done after a deed is at hand at once, however deep the calls of
hooks are nested.  Main statement: a routine of calls that is run with nobody else at work does
what the calls do when they are served (`run_unfoldCalls`).
-/

namespace ExpiringMap

variable {n : Nat} {S K V α : Type}

/-- The steps of routines. -/
inductive Deed (n : Nat) (S K V : Type)
  | act (act : Act n K V)
  | enter (map : Fin n) (hook : Hook K V)
  /-- Note what a call has come to that a hook of the map has made. -/
  | resume (map : Fin n) (call : Call n K V) (outcome : Outcome (Answer V)) (remember : S → S)
  | leave (map : Fin n) (hook : Hook K V) (verdict : Outcome Bool)
  | gather

@[reducible]
def Deed.Answer {n : Nat} {S K V : Type} : Deed n S K V → Type
  | act done => done.Answer
  | enter .. => Option (Script n S K V)
  | resume .. => S
  | leave .. => Unit
  | gather => Unit

/-- What a thread does with `n` maps, deed by deed; in the end it tells what calls have come
to. -/
inductive Routine (n : Nat) (S K V : Type)
  | done (outcomes : List (Outcome (Answer V)))
  | step (deed : Deed n S K V) (next : deed.Answer → Routine n S K V)
  /-- Leave it to branches, each of which is a thread of its own, and go on with what they have
  come to. -/
  | divide (branches : List (Routine n S K V))
      (next : List (List (Outcome (Answer V))) → Routine n S K V)

/-- A part of a routine that comes to a result, given how the routine goes on with it. -/
abbrev Passage (n : Nat) (S K V α : Type) := (α → Routine n S K V) → Routine n S K V

/-- The passage of a script of a hook of a map, given the passages of its calls. -/
def Script.unfold (serve : Call n K V → Passage n S K V (Outcome (Answer V))) (map : Fin n) :
    Script n S K V → Passage n S K V (Outcome Bool)
  | .answer verdict, next => next verdict
  | .call made remember rest, next =>
      serve made fun outcome =>
        .step (.resume map made outcome (remember outcome)) fun memory =>
          (rest outcome memory).unfold serve map next

/-- The passage of the consultation of a hook, given the passages of scripts. -/
def Hook.unfold (scripts : Fin n → Script n S K V → Passage n S K V (Outcome Bool))
    (map : Fin n) (hook : Hook K V) : Passage n S K V (Outcome Bool) := fun next =>
  .step (.enter map hook) fun
    | none => next (.ok true)
    | some script =>
        scripts map script fun verdict =>
          .step (.leave map hook verdict) fun _ => next verdict

/-- The passage of an operation, given the passages of scripts. -/
def Operation.unfold (scripts : Fin n → Script n S K V → Passage n S K V (Outcome Bool)) :
    Operation n K V α → Passage n S K V α
  | .done result, next => next result
  | .act (.act act) rest, next =>
      .step (.act act) fun answer => Operation.unfold scripts (rest answer) next
  | .act (.consult map hook) rest, next =>
      hook.unfold scripts map fun verdict => Operation.unfold scripts (rest verdict) next

namespace Plan

mutual

def unfoldCall (plan : Plan n S K V)
    (scripts : Fin n → Script n S K V → Passage n S K V (Outcome Bool)) (map : Fin n) :
    Call n K V → Passage n S K V (Outcome (Answer V))
  | .ask path request, next =>
      Operation.unfold scripts (plan.operation (path.last map) request) next
  | .together path groups, next =>
      .divide (plan.unfoldGroups scripts (path.last map) groups) fun outcomes =>
        .step .gather fun _ => next (.ok (.groups outcomes))
termination_by structural call => call

def unfoldCalls (plan : Plan n S K V)
    (scripts : Fin n → Script n S K V → Passage n S K V (Outcome Bool)) (map : Fin n) :
    List (Call n K V) → Passage n S K V (List (Outcome (Answer V)))
  | [], next => next []
  | call :: rest, next =>
      plan.unfoldCall scripts map call fun outcome =>
        plan.unfoldCalls scripts map rest fun outcomes => next (outcome :: outcomes)
termination_by structural calls => calls

def unfoldGroups (plan : Plan n S K V)
    (scripts : Fin n → Script n S K V → Passage n S K V (Outcome Bool)) (map : Fin n) :
    List (List (Call n K V)) → List (Routine n S K V)
  | [] => []
  | calls :: rest =>
      plan.unfoldCalls scripts map calls .done :: plan.unfoldGroups scripts map rest
termination_by structural groups => groups

end

/-- The passages of scripts whose calls may be nested `depth` deep. -/
def scripts (plan : Plan n S K V) :
    (depth : Nat) → Fin n → Script n S K V → Passage n S K V (Outcome Bool)
  | 0, _, _, next => next (.ok true)
  | depth + 1, map, script, next =>
      script.unfold (plan.unfoldCall (plan.scripts depth) map) map next

/-- The routine of a call made at a map, the calls of hooks nested `depth` deep at most. -/
def routine (plan : Plan n S K V) (depth : Nat) (map : Fin n) (call : Call n K V) :
    Routine n S K V :=
  plan.unfoldCalls (plan.scripts depth) map [call] .done

def jobRoutine (plan : Plan n S K V) (depth id : Nat) : Routine n S K V :=
  Operation.unfold (plan.scripts depth) (Operation.runJob id) fun _ => .done []

variable [DecidableEq K]

def perform (plan : Plan n S K V) :
    (deed : Deed n S K V) → Deployment n S K V → deed.Answer × Deployment n S K V
  | .act act, deployment => deployment.perform plan.enumeration act
  | .enter map hook, deployment => plan.enter deployment map hook
  | .resume map call outcome remember, deployment => deployment.resume map call outcome remember
  | .leave map hook verdict, deployment => ((), deployment.leave map hook verdict)
  | .gather, deployment => ((), deployment.note [.gathered])

end Plan

/-! ## A routine does what its calls do -/

section Running

variable [DecidableEq K]

mutual

/-- Runs a routine with nobody else at work, one branch after the other. -/
def Routine.run (plan : Plan n S K V) :
    Routine n S K V → Deployment n S K V → List (Outcome (Answer V)) × Deployment n S K V
  | .done outcomes, deployment => (outcomes, deployment)
  | .step deed next, deployment =>
      let (answer, deployment) := plan.perform deed deployment
      (next answer).run plan deployment
  | .divide branches next, deployment =>
      let (outcomes, deployment) := Routine.runAll plan branches deployment
      (next outcomes).run plan deployment
termination_by structural routine => routine

def Routine.runAll (plan : Plan n S K V) :
    List (Routine n S K V) → Deployment n S K V →
      List (List (Outcome (Answer V))) × Deployment n S K V
  | [], deployment => ([], deployment)
  | routine :: rest, deployment =>
      let (outcomes, deployment) := routine.run plan deployment
      let (others, deployment) := Routine.runAll plan rest deployment
      (outcomes :: others, deployment)
termination_by structural routines => routines

end

namespace Plan

/-- Whether a passage comes to what something comes to that is run through, and leaves the same
behind. -/
def Attains (plan : Plan n S K V) (passage : Passage n S K V α)
    (through : Deployment n S K V → α × Deployment n S K V) : Prop :=
  ∀ next deployment,
    (passage next).run plan deployment =
      (next (through deployment).1).run plan (through deployment).2

variable {plan : Plan n S K V}
  {scripts : Fin n → Script n S K V → Passage n S K V (Outcome Bool)}
  {consultation : Consultation n S K V}

theorem attains_unfoldHook
    (hscripts : ∀ map script, plan.Attains (scripts map script) (consultation map script))
    (map : Fin n) (hook : Hook K V) :
    plan.Attains (hook.unfold scripts map) (plan.consult consultation map hook) := by
  intro next deployment
  simp only [Hook.unfold, Routine.run, perform, consult]
  rcases plan.enter deployment map hook with ⟨_ | script, entered⟩
  · rfl
  · exact hscripts map script _ entered

theorem attains_unfoldOperation
    (hscripts : ∀ map script, plan.Attains (scripts map script) (consultation map script))
    (operation : Operation n K V α) :
    plan.Attains (Operation.unfold scripts operation)
      (operation.run (plan.respond consultation)) := by
  intro next deployment
  induction operation generalizing deployment with
  | done result => rfl
  | act step rest ih =>
      cases step with
      | act act => exact ih _ _
      | consult map hook =>
          exact (attains_unfoldHook hscripts map hook _ deployment).trans (ih _ _)

theorem attains_unfoldScript {serve : Call n K V → Passage n S K V (Outcome (Answer V))}
    {served : Call n K V → Deployment n S K V → Outcome (Answer V) × Deployment n S K V}
    (hserve : ∀ call, plan.Attains (serve call) (served call))
    (map : Fin n) (script : Script n S K V) :
    plan.Attains (script.unfold serve map) (script.run served map) := by
  intro next deployment
  induction script generalizing deployment with
  | answer verdict => rfl
  | call made remember rest ih => exact (hserve made _ deployment).trans (ih _ _ _)

mutual

theorem attains_unfoldCall
    (hscripts : ∀ map script, plan.Attains (scripts map script) (consultation map script))
    (map : Fin n) :
    ∀ call, plan.Attains (plan.unfoldCall scripts map call) (plan.serve consultation map call)
  | .ask path request => attains_unfoldOperation hscripts (plan.operation (path.last map) request)
  | .together path groups => fun next deployment => by
      simp only [unfoldCall, Routine.run, serve, perform]
      rw [runAll_unfoldGroups hscripts (path.last map) groups deployment]
termination_by structural call => call

theorem attains_unfoldCalls
    (hscripts : ∀ map script, plan.Attains (scripts map script) (consultation map script))
    (map : Fin n) :
    ∀ calls,
      plan.Attains (plan.unfoldCalls scripts map calls) (plan.serveCalls consultation map calls)
  | [] => fun _ _ => rfl
  | call :: rest => fun _ deployment =>
      (attains_unfoldCall hscripts map call _ deployment).trans
        (attains_unfoldCalls hscripts map rest _ _)
termination_by structural calls => calls

theorem runAll_unfoldGroups
    (hscripts : ∀ map script, plan.Attains (scripts map script) (consultation map script))
    (map : Fin n) :
    ∀ groups deployment,
      Routine.runAll plan (plan.unfoldGroups scripts map groups) deployment =
        plan.serveGroups consultation map groups deployment
  | [], _ => rfl
  | calls :: rest, deployment => by
      simp only [unfoldGroups, Routine.runAll, serveGroups]
      rw [attains_unfoldCalls hscripts map calls .done deployment]
      simp only [Routine.run]
      rw [runAll_unfoldGroups hscripts map rest _]
termination_by structural groups => groups

end

theorem attains_scripts (plan : Plan n S K V) (depth : Nat) (map : Fin n)
    (script : Script n S K V) :
    plan.Attains (plan.scripts depth map script) (plan.consultation depth map script) := by
  induction depth generalizing map script with
  | zero => exact fun _ _ => rfl
  | succ depth ih => exact attains_unfoldScript (attains_unfoldCall ih map) map script

/-- Run with nobody else at work, the routine of calls does what the calls do. -/
theorem run_unfoldCalls (plan : Plan n S K V) (depth : Nat) (map : Fin n)
    (calls : List (Call n K V)) (deployment : Deployment n S K V) :
    (plan.unfoldCalls (plan.scripts depth) map calls .done).run plan deployment =
      plan.serveCalls (plan.consultation depth) map calls deployment :=
  attains_unfoldCalls (plan.attains_scripts depth) map calls .done deployment

end Plan

end Running

end ExpiringMap
