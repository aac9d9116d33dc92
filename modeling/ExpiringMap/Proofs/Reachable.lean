import ExpiringMap.Proofs.Numbering

/-!
# Reachable deployments

A deployment is reachable if it comes up while requests are served on maps that have just been
built.  That may be at any moment: between two requests, between any two steps of an operation,
or within the call of a hook, where further requests may be made.  The clock may be moved by
others at any moment, too.  In every reachable deployment the sequence numbers of each map follow
the order in which its entries were placed (`Reachable.numbered`).
-/

namespace ExpiringMap

variable {n : Nat} {S K V : Type} [DecidableEq K]

/-- The deployments that come up while requests are served. -/
inductive Plan.Reachable (plan : Plan n S K V) : Deployment n S K V → Prop
  | fresh (drive : Drive) (clockRuns : Bool) (memory : S) :
      Reachable plan (.fresh drive clockRuns memory)
  /-- Somebody else has a hand in the clock. -/
  | withClock {deployment : Deployment n S K V} (clock : Clock) :
      Reachable plan deployment → Reachable plan { deployment with clock }
  /-- A step of an operation has been taken. -/
  | amid {deployment : Deployment n S K V} (depth : Nat) (map : Fin n) (request : Request K V)
      {moment : Program.Moment (Step n K V) Step.Answer (Deployment n S K V)} :
      Reachable plan deployment →
      moment ∈ (plan.operation map request).trace (plan.respond (plan.consultation depth))
        deployment →
      Reachable plan moment.after
  | entered {deployment : Deployment n S K V} (map : Fin n) (hook : Hook K V) :
      Reachable plan deployment → Reachable plan (plan.enter deployment map hook).2
  | resumed {deployment : Deployment n S K V} (map : Fin n) (call : Call n K V)
      (outcome : Outcome (Answer V)) (remember : S → S) :
      Reachable plan deployment →
      Reachable plan (deployment.resume map call outcome remember).2
  | left {deployment : Deployment n S K V} (map : Fin n) (hook : Hook K V)
      (verdict : Outcome Bool) :
      Reachable plan deployment → Reachable plan (deployment.leave map hook verdict)
  | gathered {deployment : Deployment n S K V} :
      Reachable plan deployment → Reachable plan (deployment.note [.gathered])

namespace Plan.Reachable

variable {plan : Plan n S K V} {deployment : Deployment n S K V}

omit [DecidableEq K] in
@[simp] theorem state_fresh (drive : Drive) (clockRuns : Bool) (memory : S) (map : Fin n) :
    (Deployment.fresh drive clockRuns memory : Deployment n S K V).state map = {} := by
  change (Vector.replicate n ({} : MapState K V))[map.val] = _
  rw [Vector.getElem_replicate]

/-- What is left when a request has been served is reachable. -/
theorem run (h : plan.Reachable deployment) (depth : Nat) (map : Fin n) (request : Request K V) :
    plan.Reachable (plan.run depth (plan.operation map request) deployment).2 := by
  have hreached := Program.reached_trace (plan.respond (plan.consultation depth))
    (plan.operation map request) deployment
  rcases Program.reached_cases deployment ((plan.operation map request).trace
    (plan.respond (plan.consultation depth)) deployment) with heq | ⟨moment, hmoment, heq⟩
  · rw [Plan.run, ← hreached, heq]
    exact h
  · rw [Plan.run, ← hreached, heq]
    exact .amid depth map request h hmoment

/-- What an operation finds at one of its steps is reachable. -/
theorem before (h : plan.Reachable deployment) {depth : Nat} {map : Fin n}
    {request : Request K V}
    {moment : Program.Moment (Step n K V) Step.Answer (Deployment n S K V)}
    (hmoment : moment ∈ (plan.operation map request).trace (plan.respond (plan.consultation depth))
      deployment) : plan.Reachable moment.before := by
  rcases Program.before_of_mem_trace _ hmoment with heq | ⟨earlier, hearlier, heq⟩
  · exact heq ▸ h
  · exact heq ▸ .amid depth map request h hearlier

/-- What holds of maps that have just been built, is no matter of the clock and lasts holds of
every reachable deployment. -/
theorem holds {lasts : Deployment n S K V → Deployment n S K V → Prop}
    (h : plan.Reachable deployment) (good : Deployment n S K V → Prop)
    (hlasting : Lasting plan lasts)
    (hfresh : ∀ drive clockRuns memory, good (.fresh drive clockRuns memory))
    (hclock : ∀ deployment clock, good deployment → good { deployment with clock })
    (hgood : ∀ {earlier later}, lasts earlier later → good earlier → good later) :
    good deployment := by
  induction h with
  | fresh drive clockRuns memory => exact hfresh drive clockRuns memory
  | withClock clock _ ih => exact hclock _ clock ih
  | amid depth map request _ hmoment ih =>
      have hconsult := hlasting.keeps_consult depth
      exact hgood ((hlasting.operation _ hconsult map request _).2 _ hmoment) ih
  | entered map hook _ ih => exact hgood (hlasting.enter _ map hook) ih
  | resumed map call outcome remember _ ih =>
      exact hgood (hlasting.resume _ map call outcome remember) ih
  | left map hook verdict _ ih => exact hgood (hlasting.leave _ map hook verdict) ih
  | gathered _ ih => exact hgood (hlasting.gather _) ih

theorem numbered (h : plan.Reachable deployment) : deployment.Numbered := by
  refine h.holds Deployment.Numbered (lasting_proceeds plan) (fun drive clockRuns memory map => ?_)
    (fun _ _ hnumbered => hnumbered) fun hproceeds => hproceeds.numbered
  rw [state_fresh]
  exact ⟨.nil, by simp [placings, Deployment.fresh], by simp [Store.empty]⟩

end Plan.Reachable

/-- One map whose eviction hook puts every entry that it is told of again before it says yes, with
a timeout of a second. -/
def renewing : Plan 1 Unit Nat Nat where
  settings _ :=
    { policy := .full fun hook memory =>
        match hook with
        | .screening _ => (memory, .answer (.ok true))
        | .eviction key value =>
            (memory, .ofCalls (.ok true) [.ask [] (.map (.put key value .second))]) }
  enumeration _ := .asStored

/-- The deployment of that map after an entry has been put in that has expired since. -/
def overdue : Deployment 1 Unit Nat Nat :=
  let only : Fin 1 := ⟨0, Nat.zero_lt_one⟩
  let filled := (renewing.run 0 (renewing.operation only (.map (.put 7 70 .zero)))
    (.fresh (.byHand false false) false ())).2
  (renewing.run 0 (renewing.operation only (.advance 1)) filled).2

theorem reachable_overdue : renewing.Reachable overdue :=
  ((Plan.Reachable.fresh _ _ _).run 0 0 _).run 0 0 _

end ExpiringMap
