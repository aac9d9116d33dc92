import ExpiringMap.Proofs.Acts
import ExpiringMap.Proofs.Pass.Steps

/-!
# Reading the trace of an operation

The trace of an operation lists the steps that the operation took itself.  Of each step one can
ask which hook was consulted in it and with what verdict, what the clock showed, and what was
written to the log.
-/

namespace ExpiringMap

variable {n : Nat} {S K V α : Type}

/-- A step that an operation took itself, in a deployment. -/
abbrev Moment (n : Nat) (S K V : Type) :=
  Program.Moment (Step n K V) Step.Answer (Deployment n S K V)

/-- Whether a hook has said yes. -/
def Outcome.isYes : Outcome Bool → Bool
  | .ok verdict => verdict
  | .error _ => false

/-- Whether a step is an act and not the consultation of a hook. -/
def Step.IsAct : Step n K V → Prop
  | .act _ => True
  | .consult .. => False

namespace Moment

/-- The hook that was consulted, and its verdict. -/
def consulted? : Moment n S K V → Option (Fin n × Hook K V × Outcome Bool)
  | ⟨.consult map hook, verdict, _, _⟩ => some (map, hook, verdict)
  | _ => none

def reading? : Moment n S K V → Option Instant
  | ⟨.act (.clock .read), now, _, _⟩ => some now
  | _ => none

def record? : Moment n S K V → Option (Fin n × LogRecord)
  | ⟨.act (.log map record), _, _, _⟩ => some (map, record)
  | _ => none

end Moment

/-- The consultations of hooks among some steps, with their verdicts. -/
def consultations (moments : List (Moment n S K V)) : List (Fin n × Hook K V × Outcome Bool) :=
  moments.filterMap Moment.consulted?

/-- The readings of the clock among some steps. -/
def readings (moments : List (Moment n S K V)) : List Instant :=
  moments.filterMap Moment.reading?

/-- The records written to logs among some steps. -/
def records (moments : List (Moment n S K V)) : List (Fin n × LogRecord) :=
  moments.filterMap Moment.record?

@[simp] theorem consultations_nil : consultations ([] : List (Moment n S K V)) = [] := rfl

@[simp] theorem readings_nil : readings ([] : List (Moment n S K V)) = [] := rfl

@[simp] theorem records_nil : records ([] : List (Moment n S K V)) = [] := rfl

@[simp] theorem consultations_append (earlier later : List (Moment n S K V)) :
    consultations (earlier ++ later) = consultations earlier ++ consultations later :=
  List.filterMap_append

@[simp] theorem readings_append (earlier later : List (Moment n S K V)) :
    readings (earlier ++ later) = readings earlier ++ readings later :=
  List.filterMap_append

@[simp] theorem records_append (earlier later : List (Moment n S K V)) :
    records (earlier ++ later) = records earlier ++ records later :=
  List.filterMap_append

section Single

variable (before after : Deployment n S K V) (rest : List (Moment n S K V))

@[simp] theorem consultations_consult (map : Fin n) (hook : Hook K V) (verdict : Outcome Bool) :
    consultations (⟨.consult map hook, verdict, before, after⟩ :: rest) =
      (map, hook, verdict) :: consultations rest := rfl

@[simp] theorem consultations_act (act : Act n K V) (answer : act.Answer) :
    consultations (⟨.act act, answer, before, after⟩ :: rest) = consultations rest := rfl

@[simp] theorem readings_consult (map : Fin n) (hook : Hook K V) (verdict : Outcome Bool) :
    readings (⟨.consult map hook, verdict, before, after⟩ :: rest) = readings rest := rfl

@[simp] theorem readings_read (now : Instant) :
    readings (⟨.act (.clock .read), now, before, after⟩ :: rest) = now :: readings rest := rfl

@[simp] theorem readings_map (map : Fin n) (act : MapAct K V) (answer : act.Answer) :
    readings (⟨.act (.map map act), answer, before, after⟩ :: rest) = readings rest := rfl

@[simp] theorem readings_log (map : Fin n) (record : LogRecord) :
    readings (⟨.act (.log map record), (), before, after⟩ :: rest) = readings rest := rfl

@[simp] theorem records_consult (map : Fin n) (hook : Hook K V) (verdict : Outcome Bool) :
    records (⟨.consult map hook, verdict, before, after⟩ :: rest) = records rest := rfl

@[simp] theorem records_map (map : Fin n) (act : MapAct K V) (answer : act.Answer) :
    records (⟨.act (.map map act), answer, before, after⟩ :: rest) = records rest := rfl

@[simp] theorem records_clock (act : ClockAct) (now : Instant) :
    records (⟨.act (.clock act), now, before, after⟩ :: rest) = records rest := rfl

@[simp] theorem records_log (map : Fin n) (record : LogRecord) :
    records (⟨.act (.log map record), (), before, after⟩ :: rest) =
      (map, record) :: records rest := rfl

end Single

theorem consultations_eq_nil {moments : List (Moment n S K V)}
    (h : ∀ moment ∈ moments, moment.act.IsAct) : consultations moments = [] := by
  refine List.filterMap_eq_nil_iff.mpr fun moment hmoment => ?_
  have hact := h moment hmoment
  obtain ⟨act | ⟨map, hook⟩, answer, before, after⟩ := moment
  · rfl
  · exact hact.elim

theorem readings_eq_nil {moments : List (Moment n S K V)}
    (h : ∀ moment ∈ moments, moment.act ≠ .act (.clock .read)) : readings moments = [] := by
  refine List.filterMap_eq_nil_iff.mpr fun moment hmoment => ?_
  have hact := h moment hmoment
  obtain ⟨act, answer, before, after⟩ := moment
  unfold Moment.reading?
  split
  · next heq => exact absurd (congrArg Program.Moment.act heq) hact
  · rfl

/-! ## Steps that leave the stores as they are -/

/-- Whether a step of an operation leaves all stores as they are, if it is not the consultation
of a hook. -/
def Step.LeavesStores [DecidableEq K] : Step n K V → Prop
  | .act (.map _ done) => ∀ state : MapState K V, (done.apply state).store = state.store
  | _ => True

theorem Step.Tells.leavesStores [DecidableEq K] {step : Step n K V} (h : step.Tells) :
    step.LeavesStores := by
  cases step with
  | act act => cases act <;> trivial
  | consult map hook => trivial

theorem Step.Settles.isAct {step : Step n K V} (h : step.Settles) : step.IsAct := by
  cases step with
  | act act => trivial
  | consult map hook => exact h.elim

/-- Acts that leave stores as they are do so in every deployment. -/
theorem Moment.store_eq [DecidableEq K] {plan : Plan n S K V} {consultation : Consultation n S K V}
    {moment : Moment n S K V}
    (hrespond : plan.respond consultation moment.act moment.before = (moment.answer, moment.after))
    (hleaves : moment.act.LeavesStores) (hact : moment.act.IsAct) (map : Fin n) :
    (moment.after.state map).store = (moment.before.state map).store := by
  obtain ⟨act | ⟨other, hook⟩, answer, before, after⟩ := moment
  · have hafter : (before.perform plan.enumeration act).2 = after := congrArg Prod.snd hrespond
    rw [← hafter, Deployment.store_perform]
    cases act with
    | map other act =>
        simp only
        split
        · exact hleaves _
        · rfl
    | clock | scheduler | log | sleep => rfl
  · exact hact.elim

theorem store_of_leavesStores [DecidableEq K] {plan : Plan n S K V}
    {consultation : Consultation n S K V} {operation : Operation n K V α}
    {deployment : Deployment n S K V} (h : operation.Every Step.LeavesStores)
    {moment : Moment n S K V}
    (hmoment : moment ∈ operation.trace (plan.respond consultation) deployment)
    (hact : moment.act.IsAct) (map : Fin n) :
    (moment.after.state map).store = (moment.before.state map).store :=
  moment.store_eq (Program.respond_of_mem_trace _ hmoment) (h.of_mem_trace hmoment) hact map

/-! ## Operations that begin with an act -/

namespace Operation

variable [DecidableEq K] {plan : Plan n S K V} {consultation : Consultation n S K V}

theorem ends_onMap_bind {map : Fin n} {act : MapAct K V} {next : act.Answer → Operation n K V α}
    {post : α → List (Moment n S K V) → Deployment n S K V → Prop}
    {deployment later : Deployment n S K V} {answer : act.Answer}
    (h : deployment.onMap plan.enumeration map act = (answer, later)) :
    ((onMap map act).bind next).Ends (plan.respond consultation) post deployment ↔
      (next answer).Ends (plan.respond consultation) (fun result moments last =>
        post result (⟨.act (.map map act), answer, deployment, later⟩ :: moments) last) later := by
  obtain ⟨rfl, rfl⟩ := Prod.mk.inj h
  exact .rfl

theorem ends_onScheduler_bind {act : SchedulerAct n} {next : act.Answer → Operation n K V α}
    {post : α → List (Moment n S K V) → Deployment n S K V → Prop}
    {deployment later : Deployment n S K V} {answer : act.Answer}
    (h : deployment.onScheduler act = (answer, later)) :
    ((onScheduler act).bind next).Ends (plan.respond consultation) post deployment ↔
      (next answer).Ends (plan.respond consultation) (fun result moments last => post result
        (⟨.act (.scheduler act), answer, deployment, later⟩ :: moments) last) later := by
  obtain ⟨rfl, rfl⟩ := Prod.mk.inj h
  exact .rfl

end Operation

end ExpiringMap
