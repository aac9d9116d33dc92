import ExpiringMap.Proofs.Lasting
import ExpiringMap.Proofs.Operation.Moments

/-!
# The requests that are served in a run

A call from outside leads to more than one request: hooks make calls of their own, whose passes
consult hooks again.  `Plan.servingsOfCalls` lists all requests that are served in the course of
some calls, however deep, in the order in which they come to their end.  Of each of them it keeps
what it has come to and the steps that were taken for it; what happens within the call of a hook is
no step of the request that led to it but belongs to requests of its own.  So every act of a run is
a step of exactly one serving.

What a run does is shown serving by serving: a statement on two deployments and the servings in
between holds of every run if it holds of every single request whose hooks do as stated
(`Accrues.calls`).
-/

namespace ExpiringMap

variable {n : Nat} {S K V : Type}

/-- A request that has been served. -/
structure Serving (n : Nat) (S K V : Type) where
  /-- The map at which the request was made. -/
  map : Fin n
  request : Request K V
  outcome : Outcome (Answer V)
  /-- The steps that were taken for the request itself, the first one first. -/
  moments : List (Moment n S K V)

/-- How the requests are listed that are served while the script of a hook is run. -/
abbrev Listing (n : Nat) (S K V : Type) :=
  Fin n → Script n S K V → Deployment n S K V → List (Serving n S K V)

/-- The requests that are served while a script is run, given how its calls are served and how the
requests are listed that are served in a call. -/
def Script.servings
    (serve : Call n K V → Deployment n S K V → Outcome (Answer V) × Deployment n S K V)
    (list : Call n K V → Deployment n S K V → List (Serving n S K V)) (map : Fin n) :
    Script n S K V → Deployment n S K V → List (Serving n S K V)
  | .answer _, _ => []
  | .call made remember next, deployment =>
      let (outcome, served) := serve made deployment
      let (memory, resumed) := served.resume map made outcome (remember outcome)
      list made deployment ++ (next outcome memory).servings serve list map resumed

namespace Plan

variable (plan : Plan n S K V) (list : Listing n S K V)

/-- The requests that are served while a hook is consulted. -/
def servingsOfHook (map : Fin n) (hook : Hook K V) (deployment : Deployment n S K V) :
    List (Serving n S K V) :=
  match plan.enter deployment map hook with
  | (none, _) => []
  | (some script, entered) => list map script entered

/-- The requests that are served within a step: those of a hook, if one is consulted in it. -/
def servingsWithin : Moment n S K V → List (Serving n S K V)
  | ⟨.consult map hook, _, before, _⟩ => plan.servingsOfHook list map hook before
  | ⟨.act _, _, _, _⟩ => []

/-- The requests that are served within some steps. -/
def servingsAmong (moments : List (Moment n S K V)) : List (Serving n S K V) :=
  moments.flatMap (plan.servingsWithin list)

@[simp] theorem servingsAmong_nil : plan.servingsAmong list [] = [] := rfl

theorem servingsAmong_cons (moment : Moment n S K V) (rest : List (Moment n S K V)) :
    plan.servingsAmong list (moment :: rest) =
      plan.servingsWithin list moment ++ plan.servingsAmong list rest := rfl

@[simp] theorem servingsAmong_append (earlier later : List (Moment n S K V)) :
    plan.servingsAmong list (earlier ++ later) =
      plan.servingsAmong list earlier ++ plan.servingsAmong list later :=
  List.flatMap_append

@[simp] theorem servingsAmong_act (act : Act n K V) (answer : act.Answer)
    (before after : Deployment n S K V) (rest : List (Moment n S K V)) :
    plan.servingsAmong list (⟨.act act, answer, before, after⟩ :: rest) =
      plan.servingsAmong list rest := rfl

@[simp] theorem servingsAmong_consult (map : Fin n) (hook : Hook K V) (verdict : Outcome Bool)
    (before after : Deployment n S K V) (rest : List (Moment n S K V)) :
    plan.servingsAmong list (⟨.consult map hook, verdict, before, after⟩ :: rest) =
      plan.servingsOfHook list map hook before ++ plan.servingsAmong list rest := rfl

/-- No request is served within acts. -/
theorem servingsAmong_eq_nil {moments : List (Moment n S K V)}
    (h : ∀ moment ∈ moments, moment.act.IsAct) : plan.servingsAmong list moments = [] := by
  refine List.flatMap_eq_nil_iff.mpr fun moment hmoment => ?_
  have hact := h moment hmoment
  obtain ⟨act | ⟨map, hook⟩, answer, before, after⟩ := moment
  · rfl
  · exact hact.elim

variable [DecidableEq K] (consultation : Consultation n S K V)

/-- The serving of a request. -/
def serving (map : Fin n) (request : Request K V) (deployment : Deployment n S K V) :
    Serving n S K V where
  map
  request
  outcome := ((plan.operation map request).run (plan.respond consultation) deployment).1
  moments := (plan.operation map request).trace (plan.respond consultation) deployment

/-- The requests that are served in the course of one, which comes last. -/
def servingsOfRequest (map : Fin n) (request : Request K V) (deployment : Deployment n S K V) :
    List (Serving n S K V) :=
  let serving := plan.serving consultation map request deployment
  plan.servingsAmong list serving.moments ++ [serving]

mutual

/-- The requests that are served in a call made at a map. -/
def servingsOfCall (map : Fin n) :
    Call n K V → Deployment n S K V → List (Serving n S K V)
  | .ask path request, deployment =>
      plan.servingsOfRequest list consultation (path.last map) request deployment
  | .together path groups, deployment => servingsOfGroups (path.last map) groups deployment
termination_by structural call => call

def servingsOfCalls (map : Fin n) :
    List (Call n K V) → Deployment n S K V → List (Serving n S K V)
  | [], _ => []
  | call :: rest, deployment =>
      servingsOfCall map call deployment ++
        servingsOfCalls map rest (plan.serve consultation map call deployment).2
termination_by structural calls => calls

def servingsOfGroups (map : Fin n) :
    List (List (Call n K V)) → Deployment n S K V → List (Serving n S K V)
  | [], _ => []
  | calls :: rest, deployment =>
      servingsOfCalls map calls deployment ++
        servingsOfGroups map rest (plan.serveCalls consultation map calls deployment).2
termination_by structural groups => groups

end

/-- How requests are listed where the calls of hooks may be nested `depth` deep. -/
def listing : (depth : Nat) → Listing n S K V
  | 0 => fun _ _ _ => []
  | depth + 1 => fun map script deployment =>
      script.servings (plan.serve (plan.consultation depth) map)
        (plan.servingsOfCall (listing depth) (plan.consultation depth) map) map deployment

end Plan

/-! ## What accrues serving by serving -/

section Accruing

variable [DecidableEq K]

/-- Whether a statement on two deployments and the servings in between holds of everything that
goes on in a deployment. -/
structure Accrues (plan : Plan n S K V)
    (holds : Deployment n S K V → List (Serving n S K V) → Deployment n S K V → Prop) : Prop where
  refl : ∀ deployment, holds deployment [] deployment
  trans : ∀ {first second third earlier later}, holds first earlier second →
    holds second later third → holds first (earlier ++ later) third
  enter : ∀ deployment map hook, holds deployment [] (plan.enter deployment map hook).2
  resume : ∀ deployment map call outcome remember,
    holds deployment [] (deployment.resume map call outcome remember).2
  leave : ∀ deployment map hook verdict, holds deployment [] (deployment.leave map hook verdict)
  gather : ∀ deployment, holds deployment [] (deployment.note [.gathered])
  request : ∀ list consultation,
    (∀ map hook deployment, holds deployment (plan.servingsOfHook list map hook deployment)
      (plan.consult consultation map hook deployment).2) →
    ∀ map request deployment,
      holds deployment (plan.servingsOfRequest list consultation map request deployment)
        ((plan.operation map request).run (plan.respond consultation) deployment).2

namespace Accrues

variable {plan : Plan n S K V}
  {holds : Deployment n S K V → List (Serving n S K V) → Deployment n S K V → Prop}
  {list : Listing n S K V} {consultation : Consultation n S K V}

theorem hook (h : Accrues plan holds)
    (hscripts : ∀ map script deployment,
      holds deployment (list map script deployment) (consultation map script deployment).2)
    (map : Fin n) (hook : Hook K V) (deployment : Deployment n S K V) :
    holds deployment (plan.servingsOfHook list map hook deployment)
      (plan.consult consultation map hook deployment).2 := by
  have henter := h.enter deployment map hook
  unfold Plan.servingsOfHook Plan.consult
  rcases heq : plan.enter deployment map hook with ⟨_ | script, entered⟩ <;> rw [heq] at henter
  · exact henter
  · have hleft := h.trans (hscripts map script entered)
      (h.leave (consultation map script entered).2 map hook (consultation map script entered).1)
    rw [List.append_nil] at hleft
    exact h.trans henter hleft

theorem script (h : Accrues plan holds)
    {serve : Call n K V → Deployment n S K V → Outcome (Answer V) × Deployment n S K V}
    {list : Call n K V → Deployment n S K V → List (Serving n S K V)}
    (hserve : ∀ call deployment, holds deployment (list call deployment) (serve call deployment).2)
    (map : Fin n) (script : Script n S K V) (deployment : Deployment n S K V) :
    holds deployment (script.servings serve list map deployment)
      (script.run serve map deployment).2 := by
  induction script generalizing deployment with
  | answer verdict => exact h.refl deployment
  | call made remember next ih =>
      have hcall := hserve made deployment
      have hresume := h.resume (serve made deployment).2 map made (serve made deployment).1
        (remember (serve made deployment).1)
      exact h.trans hcall (h.trans hresume (ih _ _ _))

mutual

theorem call_of_scripts (h : Accrues plan holds)
    (hscripts : ∀ map script deployment,
      holds deployment (list map script deployment) (consultation map script deployment).2)
    (map : Fin n) : ∀ (call : Call n K V) (deployment : Deployment n S K V),
    holds deployment (plan.servingsOfCall list consultation map call deployment)
      (plan.serve consultation map call deployment).2
  | .ask path request, deployment =>
      h.request list consultation (h.hook hscripts) (path.last map) request deployment
  | .together path groups, deployment => by
      have hgroups := groups_of_scripts h hscripts (path.last map) groups deployment
      have hgathered := h.trans hgroups (h.gather _)
      rwa [List.append_nil] at hgathered
termination_by structural call => call

theorem calls_of_scripts (h : Accrues plan holds)
    (hscripts : ∀ map script deployment,
      holds deployment (list map script deployment) (consultation map script deployment).2)
    (map : Fin n) : ∀ (calls : List (Call n K V)) (deployment : Deployment n S K V),
    holds deployment (plan.servingsOfCalls list consultation map calls deployment)
      (plan.serveCalls consultation map calls deployment).2
  | [], deployment => h.refl deployment
  | call :: rest, deployment =>
      h.trans (call_of_scripts h hscripts map call deployment)
        (calls_of_scripts h hscripts map rest _)
termination_by structural calls => calls

theorem groups_of_scripts (h : Accrues plan holds)
    (hscripts : ∀ map script deployment,
      holds deployment (list map script deployment) (consultation map script deployment).2)
    (map : Fin n) : ∀ (groups : List (List (Call n K V))) (deployment : Deployment n S K V),
    holds deployment (plan.servingsOfGroups list consultation map groups deployment)
      (plan.serveGroups consultation map groups deployment).2
  | [], deployment => h.refl deployment
  | calls :: rest, deployment =>
      h.trans (calls_of_scripts h hscripts map calls deployment)
        (groups_of_scripts h hscripts map rest _)
termination_by structural groups => groups

end

theorem scripts (h : Accrues plan holds) (depth : Nat) (map : Fin n) (script : Script n S K V)
    (deployment : Deployment n S K V) :
    holds deployment (plan.listing depth map script deployment)
      (plan.consultation depth map script deployment).2 := by
  induction depth generalizing map script deployment with
  | zero => exact h.refl deployment
  | succ depth ih => exact h.script (h.call_of_scripts ih map) map script deployment

/-- What accrues does so over any number of calls, however deep the calls of hooks are nested. -/
theorem calls (h : Accrues plan holds) (depth : Nat) (map : Fin n) (calls : List (Call n K V))
    (deployment : Deployment n S K V) :
    holds deployment
      (plan.servingsOfCalls (plan.listing depth) (plan.consultation depth) map calls deployment)
      (plan.serveCalls (plan.consultation depth) map calls deployment).2 :=
  h.calls_of_scripts (h.scripts depth) map calls deployment

end Accrues

/-! ### What lasts, and what goes by it -/

/-- If a relation lasts, and something goes by it of every request that is served, given what went
before, then both hold of everything that goes on in a deployment. -/
theorem Lasting.accrues {plan : Plan n S K V}
    {lasts : Deployment n S K V → Deployment n S K V → Prop}
    {good : Deployment n S K V → Serving n S K V → Prop} (h : Lasting plan lasts)
    (hback : ∀ {earlier later serving}, lasts earlier later → good later serving →
      good earlier serving)
    (hserving : ∀ consultation, (∀ map hook, Keeps lasts (plan.consult consultation map hook)) →
      ∀ map request deployment,
        good deployment (plan.serving consultation map request deployment)) :
    Accrues plan fun earlier servings later =>
      lasts earlier later ∧ ∀ serving ∈ servings, good earlier serving where
  refl deployment := ⟨h.refl deployment, by simp⟩
  trans := by
    rintro first second third earlier later ⟨hfirst, hearlier⟩ ⟨hsecond, hlater⟩
    refine ⟨h.trans hfirst hsecond, fun serving hmem => ?_⟩
    -- what goes by the later deployment goes by the earlier one, too
    rcases List.mem_append.mp hmem with hmem | hmem
    · exact hearlier serving hmem
    · exact hback hfirst (hlater serving hmem)
  enter deployment map hook := ⟨h.enter deployment map hook, by simp⟩
  resume deployment map call outcome remember :=
    ⟨h.resume deployment map call outcome remember, by simp⟩
  leave deployment map hook verdict := ⟨h.leave deployment map hook verdict, by simp⟩
  gather deployment := ⟨h.gather deployment, by simp⟩
  request list consultation hconsult map request deployment := by
    have hkeeps : ∀ map hook, Keeps lasts (plan.consult consultation map hook) :=
      fun map hook deployment => (hconsult map hook deployment).1
    have hmaintains := h.operation consultation hkeeps map request
    refine ⟨(hmaintains deployment).1, fun serving hserved => ?_⟩
    rcases List.mem_append.mp hserved with hwithin | hself
    · obtain ⟨moment, hmoment, hwithin⟩ := List.mem_flatMap.mp hwithin
      have hbefore := hmaintains.before h.refl hmoment
      obtain ⟨act | ⟨other, hook⟩, answer, before, after⟩ := moment
      · simp [Plan.servingsWithin] at hwithin
      · exact hback hbefore ((hconsult other hook before).2 serving hwithin)
    · -- the request itself has been served with hooks of which it is known
      rw [List.mem_singleton.mp hself]
      exact hserving consultation hkeeps map request deployment

/-- What lasts holds at every step that is taken for any request. -/
theorem Lasting.accrues_moments {plan : Plan n S K V}
    {lasts : Deployment n S K V → Deployment n S K V → Prop} (h : Lasting plan lasts) :
    Accrues plan fun earlier servings later => lasts earlier later ∧
      ∀ serving ∈ servings, ∀ moment ∈ serving.moments,
        lasts earlier moment.before ∧ lasts earlier moment.after := by
  refine h.accrues ?_ ?_
  · intro earlier later serving hlasts hmoments moment hmoment
    obtain ⟨hbefore, hafter⟩ := hmoments moment hmoment
    exact ⟨h.trans hlasts hbefore, h.trans hlasts hafter⟩
  · intro consultation hconsult map request deployment moment hmoment
    have hmaintains := h.operation consultation hconsult map request
    exact ⟨hmaintains.before h.refl hmoment, (hmaintains deployment).2 moment hmoment⟩

end Accruing

end ExpiringMap
