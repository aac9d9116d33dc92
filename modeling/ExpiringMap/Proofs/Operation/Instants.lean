import ExpiringMap.Proofs.Operation.Composition
import ExpiringMap.Proofs.Pass.Course

/-!
# The instants that operations go by

An operation that reads, places or scans does so at an instant, and that is the one at which the
clock stands when it does it (`goesByClock_serve`): the clock is read in the step before, and no
hook is consulted in between.
-/

namespace ExpiringMap

variable {n : Nat} {S K V α β : Type}

/-- The instant that an act on a map goes by, if it goes by one. -/
def MapAct.instant? : MapAct K V → Option Instant
  | read _ now | insert _ now | insertIfAbsent _ now | scan now => some now
  | _ => none

/-- Whether a step goes by no instant. -/
def Step.IsTimeless : Step n K V → Prop
  | .act (.map _ done) => done.instant? = none
  | _ => True

/-- Whether a step that goes by an instant goes by the one at which the clock stands. -/
def Moment.GoesByClock (moment : Moment n S K V) : Prop :=
  ∀ map act now, moment.act = .act (.map map act) → act.instant? = some now →
    moment.before.clock.now = now

theorem MapAct.OfService.isTimeless {act : MapAct K V} (h : act.OfService) :
    act.instant? = none := by
  cases act <;> first | exact h.elim | rfl

theorem Step.OfService.isTimeless {step : Step n K V} (h : step.OfService) : step.IsTimeless := by
  cases step with
  | act act =>
      cases act with
      | map map done => exact MapAct.OfService.isTimeless h
      | clock | scheduler | log | sleep => trivial
  | consult map hook => trivial

theorem Step.Tells.isTimeless {step : Step n K V} (h : step.Tells) : step.IsTimeless := by
  cases step with
  | act act =>
      cases act with
      | map map done => exact h.elim
      | clock | scheduler | log | sleep => trivial
  | consult map hook => trivial

theorem Step.Concludes.isTimeless {map : Fin n} {confirmed : List (Entry K V)}
    {step : Step n K V} (h : step.Concludes map confirmed) : step.IsTimeless := by
  rcases h with ⟨entry, -, rfl⟩ | rfl | ⟨record, rfl⟩ <;> trivial

namespace Operation

open Program

variable [DecidableEq K] {plan : Plan n S K V} {consultation : Consultation n S K V}

variable (plan consultation) in
/-- Whether all steps of an operation go by the clock. -/
def GoesByClock (operation : Operation n K V α) : Prop :=
  ∀ deployment, ∀ moment : Moment n S K V,
    moment ∈ operation.trace (plan.respond consultation) deployment → moment.GoesByClock

theorem goesByClock_of_every {operation : Operation n K V α}
    (h : operation.Every Step.IsTimeless) : operation.GoesByClock plan consultation := by
  intro deployment moment hmoment map act now hact hinstant
  have htimeless := h.of_mem_trace hmoment
  rw [hact] at htimeless
  exact absurd (htimeless.symm.trans hinstant) (by simp)

theorem goesByClock_bind {operation : Operation n K V α} {next : α → Operation n K V β}
    (h : operation.GoesByClock plan consultation)
    (hnext : ∀ result, (next result).GoesByClock plan consultation) :
    GoesByClock plan consultation (operation.bind next) := by
  intro deployment moment hmoment
  rw [trace_bind] at hmoment
  rcases List.mem_append.mp hmoment with hmoment | hmoment
  · exact h deployment moment hmoment
  · exact hnext _ _ moment hmoment

/-- What is done right after the clock has been read finds the clock where it showed. -/
theorem goesByClock_now {next : Instant → Operation n K V α}
    (h : ∀ deployment : Deployment n S K V, ∀ moment : Moment n S K V,
      moment ∈ (next deployment.clock.now).trace (plan.respond consultation) deployment →
        moment.GoesByClock) :
    GoesByClock plan consultation (now.bind next) := by
  intro deployment moment hmoment
  rcases List.mem_cons.mp hmoment with rfl | hmoment
  · intro map act instant hact
    cases hact
  · exact h (deployment.onClock .read).2 moment hmoment

/-- An act that goes by the instant at which the clock stands is all that an operation does. -/
theorem goesByClock_at (map : Fin n) {deployment : Deployment n S K V} {act : MapAct K V}
    (hact : act.instant? = some deployment.clock.now) :
    ∀ moment : Moment n S K V,
      moment ∈ (onMap map act).trace (plan.respond consultation) deployment →
        moment.GoesByClock := by
  intro moment hmoment other done instant hdone hinstant
  obtain rfl := List.mem_singleton.mp hmoment
  obtain ⟨-, rfl⟩ := Act.map.inj (Step.act.inj hdone)
  exact Option.some.inj (hact.symm.trans hinstant)

theorem goesByClock_onMap (map : Fin n) {act : MapAct K V} (hact : act.instant? = none) :
    GoesByClock plan consultation (onMap map act) :=
  goesByClock_of_every ⟨hact, fun _ => trivial⟩

theorem goesByClock_guarded (map : Fin n) {body : Operation n K V α}
    (h : body.GoesByClock plan consultation) :
    (guarded map body).GoesByClock plan consultation := by
  refine goesByClock_bind (goesByClock_onMap map rfl) fun _ => ?_
  refine goesByClock_bind h fun result => ?_
  exact goesByClock_bind (goesByClock_onMap map rfl) fun _ => goesByClock_of_every trivial

/-- A pass scans right after it has read the clock, and goes by no other instant. -/
theorem goesByClock_pass (map : Fin n) :
    GoesByClock plan consultation (pass map) := by
  have hsearch : GoesByClock plan consultation (search map) := by
    refine goesByClock_bind (goesByClock_onMap map rfl) fun _ => ?_
    refine goesByClock_bind (goesByClock_onMap map rfl) fun count => ?_
    refine goesByClock_bind (goesByClock_of_every ⟨trivial, fun _ => trivial⟩) fun _ => ?_
    refine goesByClock_bind (goesByClock_onMap map rfl) fun size => ?_
    split
    · exact goesByClock_of_every trivial
    · exact goesByClock_now fun _ => goesByClock_at map rfl
  rw [pass_eq]
  refine goesByClock_bind (goesByClock_bind hsearch fun found => ?_) fun result => ?_
  · exact goesByClock_of_every ((tells_consultAll map found).mono fun _ h => h.isTimeless)
  · exact goesByClock_of_every ((concludes_conclusion map result).mono fun _ h => h.isTimeless)

theorem composes_goesByClock :
    ComposesService fun _ operation => operation.GoesByClock plan consultation where
  done _ := goesByClock_of_every trivial
  step _ hstep := goesByClock_of_every ⟨hstep.isTimeless, fun _ => trivial⟩
  bind := goesByClock_bind
  get map _ := goesByClock_guarded map (goesByClock_now fun _ => goesByClock_at map rfl)
  put map _ _ _ :=
    goesByClock_guarded map (goesByClock_bind (goesByClock_onMap map rfl) fun _ =>
      goesByClock_now fun _ => goesByClock_at map rfl)
  putIfAbsent map _ _ _ :=
    goesByClock_guarded map (goesByClock_bind (goesByClock_onMap map rfl) fun _ =>
      goesByClock_now fun _ => goesByClock_at map rfl)
  remove map _ := goesByClock_guarded map (goesByClock_onMap map rfl)
  empty map := goesByClock_guarded map (goesByClock_onMap map rfl)
  pass := goesByClock_pass

end Operation

/-- Whatever is asked for, entries are read, placed and scanned at the instant at which the clock
stands. -/
theorem goesByClock_serve [DecidableEq K] (plan : Plan n S K V)
    (consultation : Consultation n S K V) (map : Fin n) (request : Request K V) :
    (plan.operation map request).GoesByClock plan consultation :=
  Operation.composes_goesByClock.serve (plan.settings map) map request

end ExpiringMap
