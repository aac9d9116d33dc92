import ExpiringMap.Proofs.Acts
import ExpiringMap.Proofs.Trace

/-!
# What lasts through the calls of hooks

A hook that is consulted may make calls, whose operations consult hooks again, and so on to any
depth.  A relation between an earlier and a later deployment is `Lasting` if every operation
maintains it, provided that the calls of hooks do, and if it holds across what goes on
around the calls of hooks.  Then it holds across whole scripts and calls, however deep their
calls are nested (`keeps_consultation`): the induction on the depth is here once and for all, and
whoever consults hooks at some depth goes by what lasts through that (`keeps_consult`).
-/

namespace ExpiringMap

variable {n : Nat} {S K V α : Type}

/-- Whether a relation holds between the deployment that something finds and the one it leaves. -/
def Keeps (lasts : Deployment n S K V → Deployment n S K V → Prop)
    (through : Deployment n S K V → α × Deployment n S K V) : Prop :=
  ∀ deployment, lasts deployment (through deployment).2

variable [DecidableEq K]

/-- Whether an operation maintains a relation, given how scripts are run. -/
abbrev Operation.Maintains (plan : Plan n S K V) (consultation : Consultation n S K V)
    (lasts : Deployment n S K V → Deployment n S K V → Prop) (operation : Operation n K V α) :
    Prop :=
  Program.Maintains (plan.respond consultation) lasts operation

/-! ## Calls, given their requests -/

/-- A relation that every request keeps, given how scripts are run. -/
structure Carries (plan : Plan n S K V) (consultation : Consultation n S K V)
    (lasts : Deployment n S K V → Deployment n S K V → Prop) : Prop where
  refl : ∀ deployment, lasts deployment deployment
  trans : ∀ {first second third}, lasts first second → lasts second third → lasts first third
  gather : ∀ deployment, lasts deployment (deployment.note [.gathered])
  request : ∀ map request, Keeps lasts fun deployment =>
    (plan.operation map request).run (plan.respond consultation) deployment

namespace Carries

variable {plan : Plan n S K V} {lasts : Deployment n S K V → Deployment n S K V → Prop}
  {consultation : Consultation n S K V}

mutual

/-- Calls keep what their requests keep. -/
theorem call (h : Carries plan consultation lasts) (map : Fin n) :
    ∀ call, Keeps lasts (plan.serve consultation map call)
  | .ask path request => h.request (path.last map) request
  | .together path groups => fun deployment =>
      h.trans (Carries.groups h (path.last map) groups deployment) (h.gather _)
termination_by structural call => call

theorem calls (h : Carries plan consultation lasts) (map : Fin n) :
    ∀ calls, Keeps lasts (plan.serveCalls consultation map calls)
  | [] => h.refl
  | call :: rest => fun deployment =>
      h.trans (Carries.call h map call deployment) (calls h map rest _)
termination_by structural calls => calls

theorem groups (h : Carries plan consultation lasts) (map : Fin n) :
    ∀ groups, Keeps lasts (plan.serveGroups consultation map groups)
  | [] => h.refl
  | calls :: rest => fun deployment =>
      h.trans (Carries.calls h map calls deployment) (groups h map rest _)
termination_by structural groups => groups

end

end Carries

/-! ## What lasts -/

/-- A relation that everything in a deployment maintains. -/
structure Lasting (plan : Plan n S K V)
    (lasts : Deployment n S K V → Deployment n S K V → Prop) : Prop where
  refl : ∀ deployment, lasts deployment deployment
  trans : ∀ {first second third}, lasts first second → lasts second third → lasts first third
  enter : ∀ deployment map hook, lasts deployment (plan.enter deployment map hook).2
  resume : ∀ deployment map call outcome remember,
    lasts deployment (deployment.resume map call outcome remember).2
  leave : ∀ deployment map hook verdict, lasts deployment (deployment.leave map hook verdict)
  gather : ∀ deployment, lasts deployment (deployment.note [.gathered])
  operation : ∀ consultation, (∀ map hook, Keeps lasts (plan.consult consultation map hook)) →
    ∀ map request, (plan.operation map request).Maintains plan consultation lasts

namespace Lasting

variable {plan : Plan n S K V} {lasts : Deployment n S K V → Deployment n S K V → Prop}
  {consultation : Consultation n S K V}

theorem consult (h : Lasting plan lasts)
    (hscripts : ∀ map script, Keeps lasts (consultation map script)) (map : Fin n)
    (hook : Hook K V) : Keeps lasts (plan.consult consultation map hook) := by
  intro deployment
  have henter := h.enter deployment map hook
  unfold Plan.consult
  split
  · next heq => rwa [heq] at henter
  · next script entered heq =>
    rw [heq] at henter
    exact h.trans henter (h.trans (hscripts map script entered) (h.leave _ map hook _))

theorem script (h : Lasting plan lasts)
    {serve : Call n K V → Deployment n S K V → Outcome (Answer V) × Deployment n S K V}
    (hserve : ∀ call, Keeps lasts (serve call)) (map : Fin n) (script : Script n S K V) :
    Keeps lasts (script.run serve map) := by
  induction script with
  | answer verdict => exact h.refl
  | call made remember next ih =>
      intro deployment
      have hcall := hserve made deployment
      have hresume := h.resume (serve made deployment).2 map made (serve made deployment).1
        (remember (serve made deployment).1)
      exact h.trans hcall (h.trans hresume (ih _ _ _))

theorem serve_of_scripts (h : Lasting plan lasts)
    (hscripts : ∀ map script, Keeps lasts (consultation map script)) (map : Fin n)
    (call : Call n K V) : Keeps lasts (plan.serve consultation map call) := by
  refine Carries.call ⟨h.refl, h.trans, h.gather, fun map request deployment => ?_⟩ map call
  exact (h.operation consultation (h.consult hscripts) map request deployment).1

/-- Scripts keep what lasts, however deep their calls are nested. -/
theorem keeps_consultation (h : Lasting plan lasts) (depth : Nat) (map : Fin n)
    (script : Script n S K V) : Keeps lasts (plan.consultation depth map script) := by
  induction depth generalizing map script with
  | zero => exact h.refl
  | succ depth ih => exact h.script (h.serve_of_scripts ih map) map script

theorem keeps_consult (h : Lasting plan lasts) (depth : Nat) (map : Fin n) (hook : Hook K V) :
    Keeps lasts (plan.consult (plan.consultation depth) map hook) :=
  h.consult (h.keeps_consultation depth) map hook

/-- Two relations that last do so together. -/
theorem and {also : Deployment n S K V → Deployment n S K V → Prop} (h : Lasting plan lasts)
    (h' : Lasting plan also) :
    Lasting plan fun earlier later => lasts earlier later ∧ also earlier later where
  refl deployment := ⟨h.refl deployment, h'.refl deployment⟩
  trans first second := ⟨h.trans first.1 second.1, h'.trans first.2 second.2⟩
  enter deployment map hook := ⟨h.enter deployment map hook, h'.enter deployment map hook⟩
  resume deployment map call outcome remember :=
    ⟨h.resume deployment map call outcome remember, h'.resume deployment map call outcome remember⟩
  leave deployment map hook verdict :=
    ⟨h.leave deployment map hook verdict, h'.leave deployment map hook verdict⟩
  gather deployment := ⟨h.gather deployment, h'.gather deployment⟩
  operation consultation hconsult map request := by
    intro deployment
    have hfirst := h.operation consultation (fun map hook deployment =>
      (hconsult map hook deployment).1) map request deployment
    have hsecond := h'.operation consultation (fun map hook deployment =>
      (hconsult map hook deployment).2) map request deployment
    -- both are kept by the same steps, and each has a proof of its own
    refine ⟨⟨hfirst.1, hsecond.1⟩, fun moment hmoment => ?_⟩
    exact ⟨hfirst.2 moment hmoment, hsecond.2 moment hmoment⟩

/-- What the acts of requests keep is kept by everything in a deployment.  They may make use of
whatever else is known to hold, provided that it goes on to hold of what lasts. -/
theorem keeping {known kept : Deployment n S K V → Prop} (h : Lasting plan lasts)
    (hknown : ∀ {earlier later}, lasts earlier later → known earlier → known later)
    (haside : ∀ {earlier later}, earlier.Aside later → kept earlier → kept later)
    (hact : ∀ consultation, (∀ map hook, Keeps lasts (plan.consult consultation map hook)) →
      ∀ map request deployment,
        let moments := (plan.operation map request).trace (plan.respond consultation) deployment
        (∀ moment ∈ moments, known moment.before ∧ known moment.after) →
          ∀ moment ∈ moments, (∃ act, moment.act = .act act) → kept moment.before →
            kept moment.after) :
    Lasting plan fun earlier later =>
      lasts earlier later ∧ (known earlier → kept earlier → kept later) where
  refl deployment := ⟨h.refl deployment, fun _ hkept => hkept⟩
  trans first second :=
    ⟨h.trans first.1 second.1, fun hfirst hkept =>
      second.2 (hknown first.1 hfirst) (first.2 hfirst hkept)⟩
  enter deployment map hook :=
    ⟨h.enter deployment map hook, fun _ => haside (deployment.aside_enter plan map hook)⟩
  resume deployment map call outcome remember :=
    ⟨h.resume deployment map call outcome remember, fun _ =>
      haside (deployment.aside_resume map call outcome remember)⟩
  leave deployment map hook verdict :=
    ⟨h.leave deployment map hook verdict, fun _ =>
      haside (deployment.aside_leave map hook verdict)⟩
  gather deployment := ⟨h.gather deployment, fun _ => haside deployment.aside_gather⟩
  operation consultation hconsult map request := by
    have hlasts : ∀ map hook, Keeps lasts (plan.consult consultation map hook) :=
      fun map hook deployment => (hconsult map hook deployment).1
    have hmaintains := h.operation consultation hlasts map request
    intro deployment
    have hkeeps : known deployment → kept deployment →
        kept ((plan.operation map request).run (plan.respond consultation) deployment).2 ∧
          ∀ moment ∈ (plan.operation map request).trace (plan.respond consultation) deployment,
            kept moment.before ∧ kept moment.after := by
      -- what is known of the first deployment is known of every moment
      intro hdeployment hkept
      have hthroughout : ∀ moment ∈
          (plan.operation map request).trace (plan.respond consultation) deployment,
          known moment.before ∧ known moment.after := fun moment hmoment =>
        ⟨hknown (hmaintains.before h.refl hmoment) hdeployment,
          hknown ((hmaintains deployment).2 moment hmoment) hdeployment⟩
      have hacted := hact consultation hlasts map request deployment hthroughout
      refine Program.holds_of_trace _ _ hkept fun moment hmoment hbefore => ?_
      have hfound := (hthroughout moment hmoment).1
      have hrespond := Program.respond_of_mem_trace _ hmoment
      replace hacted := hacted moment hmoment
      -- an act is covered by what is assumed of acts, and of a consultation both are known
      obtain ⟨act | ⟨other, hook⟩, answer, before, after⟩ := moment
      · exact hacted ⟨act, rfl⟩ hbefore
      · obtain rfl : (plan.consult consultation other hook before).2 = after :=
          congrArg Prod.snd hrespond
        exact (hconsult other hook before).2 hfound hbefore
    refine ⟨⟨(hmaintains deployment).1, fun hdeployment hkept => (hkeeps hdeployment hkept).1⟩,
      fun moment hmoment => ⟨(hmaintains deployment).2 moment hmoment, ?_⟩⟩
    exact fun hdeployment hkept => ((hkeeps hdeployment hkept).2 moment hmoment).2

/-- What every act on a map keeps is kept by everything in a deployment. -/
theorem keeping_onMap {known kept : Deployment n S K V → Prop} (h : Lasting plan lasts)
    (hknown : ∀ {earlier later}, lasts earlier later → known earlier → known later)
    (haside : ∀ {earlier later}, earlier.Aside later → kept earlier → kept later)
    (honMap : ∀ deployment map act, known deployment →
      known (deployment.onMap plan.enumeration map act).2 → kept deployment →
        kept (deployment.onMap plan.enumeration map act).2) :
    Lasting plan fun earlier later =>
      lasts earlier later ∧ (known earlier → kept earlier → kept later) := by
  refine h.keeping hknown haside fun consultation _ map request deployment hthroughout
    moment hmoment => ?_
  obtain ⟨hbefore, hafter⟩ := hthroughout moment hmoment
  have hrespond := Program.respond_of_mem_trace _ hmoment
  obtain ⟨step, answer, before, after⟩ := moment
  rintro ⟨act, rfl⟩
  obtain rfl : (before.perform plan.enumeration act).2 = after := congrArg Prod.snd hrespond
  -- an act beside the map, or one on the map
  rcases before.aside_perform plan.enumeration act with hleft | ⟨other, done, rfl⟩
  · exact haside hleft
  · exact honMap before other done hbefore hafter

end Lasting

/-! ## What lasts act by act -/

/-- A relation that holds across everything that leaves the maps aside, and across every single act
on a map whatever operation it belongs to. -/
structure Stepwise (plan : Plan n S K V)
    (lasts : Deployment n S K V → Deployment n S K V → Prop) : Prop where
  trans : ∀ {first second third}, lasts first second → lasts second third → lasts first third
  aside : ∀ {earlier later}, earlier.Aside later → lasts earlier later
  onMap : ∀ deployment map act, lasts deployment (deployment.onMap plan.enumeration map act).2

namespace Stepwise

variable {plan : Plan n S K V} {lasts : Deployment n S K V → Deployment n S K V → Prop}

theorem refl (h : Stepwise plan lasts) (deployment : Deployment n S K V) :
    lasts deployment deployment :=
  h.aside (.refl deployment)

theorem respond (h : Stepwise plan lasts) {consultation : Consultation n S K V}
    (hconsult : ∀ map hook, Keeps lasts (plan.consult consultation map hook)) (step : Step n K V)
    (deployment : Deployment n S K V) :
    lasts deployment (plan.respond consultation step deployment).2 := by
  cases step with
  | act act =>
      rcases deployment.aside_perform plan.enumeration act with haside | ⟨map, done, rfl⟩
      · exact h.aside haside
      · exact h.onMap deployment map done
  | consult map hook => exact hconsult map hook deployment

theorem maintains_of_consult (h : Stepwise plan lasts) {consultation : Consultation n S K V}
    (hconsult : ∀ map hook, Keeps lasts (plan.consult consultation map hook))
    (operation : Operation n K V α) : operation.Maintains plan consultation lasts :=
  Program.maintains_of_respond h.refl h.trans (h.respond hconsult) operation

/-- What lasts act by act does so from each step of an operation to every later one. -/
theorem pairwise_of_consult (h : Stepwise plan lasts) {consultation : Consultation n S K V}
    (hconsult : ∀ map hook, Keeps lasts (plan.consult consultation map hook))
    (operation : Operation n K V α) (deployment : Deployment n S K V) :
    (operation.trace (plan.respond consultation) deployment).Pairwise fun earlier later =>
      lasts earlier.after later.before := by
  refine Program.pairwise_of_trace _ lasts h.refl h.trans operation fun moment hmoment => ?_
  have hrespond := Program.respond_of_mem_trace _ hmoment
  have hlasts := h.respond hconsult moment.act moment.before
  rwa [hrespond] at hlasts

theorem lasting (h : Stepwise plan lasts) : Lasting plan lasts where
  refl := h.refl
  trans := h.trans
  enter deployment map hook := h.aside (deployment.aside_enter plan map hook)
  resume deployment map call outcome remember :=
    h.aside (deployment.aside_resume map call outcome remember)
  leave deployment map hook verdict := h.aside (deployment.aside_leave map hook verdict)
  gather deployment := h.aside deployment.aside_gather
  operation _ hconsult map request := h.maintains_of_consult hconsult (plan.operation map request)

/-- Every operation maintains what lasts act by act, however deep the calls of hooks are nested. -/
theorem maintains (h : Stepwise plan lasts) (depth : Nat) (operation : Operation n K V α) :
    operation.Maintains plan (plan.consultation depth) lasts :=
  h.maintains_of_consult (h.lasting.keeps_consult depth) operation

end Stepwise

/-- Nothing that has happened is ever undone. -/
theorem stepwise_precedes (plan : Plan n S K V) : Stepwise plan Deployment.Precedes :=
  ⟨.trans, Deployment.Aside.precedes, Deployment.precedes_onMap plan.enumeration⟩

end ExpiringMap
