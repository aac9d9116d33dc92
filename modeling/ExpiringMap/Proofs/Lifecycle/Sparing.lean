import ExpiringMap.Proofs.Acts
import ExpiringMap.Proofs.Lifecycle.Contention
import ExpiringMap.Proofs.Operation.Composition

/-!
# Acts that spare the lifecycle of a map

Between two steps of its lifecycle a call of `start` or `stop` does a great deal that is no matter
of the lifecycle: it talks to the scheduler, it may make a run of a job with a whole pass in it, it
empties the store.  All of this spares the phase and the job of the map (`perform_spares`).  A run
might touch them only by giving up the last hold on the map, and that it does not do while the map
has a handle.

`Program.Through` says of what remains of an operation that it spares the map until it has come to a
certain point.
-/

namespace ExpiringMap

variable {n : Nat} {S K V α β : Type}

/-! ## Acts -/

/-- Whether an act on a map leaves its phase, its job and its handles alone. -/
def MapAct.SparesLifecycle : MapAct K V → Prop
  | setPhase _ | shift .. | keepJob _ | takeJob | addHandle | takeHandle => False
  | _ => True

/-- Whether an act is no matter of the lifecycle of a map. -/
def Act.Spares (map : Fin n) : Act n K V → Prop
  | .map other act => other = map → act.SparesLifecycle
  | _ => True

/-- Whether an answer is one that can be had while the map has a handle. -/
def Act.AnswersHeld (map : Fin n) : (act : Act n K V) → act.Answer → Prop
  | .map other .letGo, last => other = map → last = false
  | _, _ => True

/-- What is kept of a map by acts that spare it. -/
structure MapState.SameLifecycle (earlier later : MapState K V) : Prop where
  phase : later.phase = earlier.phase
  job : later.job = earlier.job
  handles : later.handles = earlier.handles

theorem MapAct.SparesLifecycle.apply [DecidableEq K] {act : MapAct K V} (h : act.SparesLifecycle)
    (state : MapState K V) : state.SameLifecycle (act.apply state) := by
  cases act with
  | setPhase phase => exact h.elim
  | shift call source target => exact h.elim
  | keepJob id => exact h.elim
  | takeJob => exact h.elim
  | addHandle => exact h.elim
  | takeHandle => exact h.elim
  | borrow | hold =>
      -- whether or not the use is granted, only the number of uses changes
      simp only [MapAct.apply]
      split <;> exact ⟨rfl, rfl, rfl⟩
  | lock | unlock | reserve | read | insert | insertIfAbsent | remove | removeIfSame | scan | size
  | clear | readPhase | letGo => exact ⟨rfl, rfl, rfl⟩

namespace Deployment

variable [DecidableEq K] (enumeration : Fin n → Enumeration K V) (deployment : Deployment n S K V)
  {map : Fin n}

theorem perform_spares {act : Act n K V} (h : act.Spares map) :
    (deployment.state map).SameLifecycle ((deployment.perform enumeration act).2.state map) := by
  cases act with
  | map other act =>
      simp only [perform, state_onMap]
      split
      · next heq =>
        subst heq
        exact (h rfl).apply _
      · exact ⟨rfl, rfl, rfl⟩
  | clock | scheduler | log | sleep => exact ⟨rfl, rfl, rfl⟩

theorem perform_answersHeld (hhandle : (deployment.state map).hasHandle = true) (act : Act n K V) :
    act.AnswersHeld map (deployment.perform enumeration act).1 := by
  have hhandles : 0 < (deployment.state map).handles := of_decide_eq_true hhandle
  cases act with
  | map other act =>
      cases act with
      | letGo =>
          rintro rfl
          -- somebody has a handle, so a use that ends is not the last hold
          show decide ((deployment.state other).handles + ((deployment.state other).uses - 1) = 0)
            = false
          exact decide_eq_false (by omega)
      | lock | unlock | reserve | read | insert | insertIfAbsent | remove | removeIfSame | scan
      | size | clear | readPhase | setPhase | shift | keepJob | takeJob | borrow | hold | addHandle
      | takeHandle => trivial
  | clock | scheduler | log | sleep => trivial

end Deployment

theorem Act.Spares.claims {act : Act n K V} {map : Fin n} (h : act.Spares map) (number : Nat)
    (answer : act.Answer) : (Performed.mk number act answer).claims map = false := by
  cases act with
  | map other act =>
      cases act with
      | shift call source target =>
          have hne : other ≠ map := fun heq => h heq
          cases answer <;> simp [Performed.claims, hne]
      | lock | unlock | reserve | read | insert | insertIfAbsent | remove | removeIfSame | scan
      | size | clear | readPhase | setPhase | keepJob | takeJob | borrow | hold | letGo
      | addHandle | takeHandle => rfl
  | clock | scheduler | log | sleep => rfl

theorem Act.Spares.sets {act : Act n K V} {map : Fin n} (h : act.Spares map) (number : Nat)
    (answer : act.Answer) : (Performed.mk number act answer).sets map = false := by
  cases act with
  | map other act =>
      cases act with
      | setPhase phase =>
          have hne : other ≠ map := fun heq => h heq
          simp [Performed.sets, hne]
      | lock | unlock | reserve | read | insert | insertIfAbsent | remove | removeIfSame | scan
      | size | clear | readPhase | shift | keepJob | takeJob | borrow | hold | letGo | addHandle
      | takeHandle => rfl
  | clock | scheduler | log | sleep => rfl

/-! ## Programs -/

/-- Whether what remains of an operation spares a map until it has come to a certain point, as long
as the map has a handle. -/
inductive Operation.Through (map : Fin n) (point : Operation n K V α → Prop) :
    Operation n K V α → Prop
  | there {rest : Operation n K V α} : point rest → Through map point rest
  | act {act : Act n K V} {next : act.Answer → Operation n K V α} : act.Spares map →
      (∀ answer, act.AnswersHeld map answer → Through map point (next answer)) →
      Through map point (.act (.act act) next)
  | consult {other : Fin n} {hook : Hook K V} {next : Outcome Bool → Operation n K V α} :
      (∀ verdict, Through map point (next verdict)) →
      Through map point (.act (.consult other hook) next)

/-- Whether an operation spares a map from beginning to end. -/
abbrev Operation.Spares (map : Fin n) (operation : Operation n K V α) : Prop :=
  Operation.Through map (fun rest => ∃ result, rest = .done result) operation

namespace Operation

open Program

variable {map : Fin n} {point : Operation n K V β → Prop}

theorem Through.bind {operation : Operation n K V α} {next : α → Operation n K V β}
    (h : operation.Spares map) (hnext : ∀ result, (next result).Through map point) :
    Through map point (operation.bind next) := by
  induction h with
  | there hdone =>
      obtain ⟨result, rfl⟩ := hdone
      exact hnext result
  | act hspares _ ih => exact .act hspares ih
  | consult _ ih => exact .consult ih

variable (map)

theorem spares_done (result : α) : Spares (n := n) (K := K) (V := V) map (.done result) :=
  .there ⟨result, rfl⟩

theorem spares_act (act : Act n K V) (h : act.Spares map) : Spares map (.act (.act act) .done) :=
  .act h fun answer _ => spares_done map answer

theorem spares_onMap (other : Fin n) (act : MapAct K V) (h : other = map → act.SparesLifecycle) :
    Spares map (onMap other act) :=
  spares_act map (.map other act) h

theorem spares_onScheduler (act : SchedulerAct n) :
    Spares map (onScheduler (K := K) (V := V) act) :=
  spares_act map (.scheduler act) trivial

theorem spares_log (other : Fin n) (record : LogRecord) :
    Spares map (log (K := K) (V := V) other record) :=
  spares_act map (.log other record) trivial

theorem composes_spares : ComposesEntries fun _ (operation : Operation n K V _) =>
    operation.Spares map where
  done := spares_done map
  step step hstep := by
    cases step with
    | act act =>
        refine spares_act map act ?_
        cases act with
        | map other act =>
            intro _
            cases act <;> trivial
        | clock | scheduler | log | sleep => trivial
    | consult other hook => exact .consult fun verdict => spares_done map verdict
  bind := Through.bind
  guarded other body hbody := by
    -- a lock and its unlock spare the map, whosever they are
    refine .bind (spares_onMap map other .lock fun _ => trivial) fun _ => ?_
    refine .bind hbody fun result => ?_
    exact .bind (spares_onMap map other .unlock fun _ => trivial) fun _ => spares_done map result

/-! ## Runs of jobs -/

theorem spares_scheduledPass (other : Fin n) :
    Spares map (scheduledPass (K := K) (V := V) other) := by
  refine .bind (spares_onMap map other .readPhase fun _ => trivial) fun phase => ?_
  split
  · refine .bind (spares_log map other .runBegins) fun _ => ?_
    refine .bind ((composes_spares map).pass other) fun outcome => ?_
    cases outcome with
    | ok _ => exact spares_done map _
    | error panic => exact spares_log map other (.passPanicked panic)
  · exact spares_log map other .runNotAllowed

/-- A hold is given up without consequences for a map that has a handle. -/
theorem spares_release {retirement : Retirement n K V} {other : Fin n}
    (h : other ≠ map → (retirement other).Spares map) :
    (release retirement other).Spares map := by
  have hletGo : (Act.map other .letGo : Act n K V).Spares map := fun _ => trivial
  refine .act hletGo fun last hlast => ?_
  cases last with
  | false => exact spares_done map _
  | true => exact h fun heq => Bool.noConfusion (hlast heq)

theorem spares_runOnce {retirement : Retirement n K V}
    (h : ∀ other, other ≠ map → (retirement other).Spares map) (id : Nat) :
    (runOnce retirement id).Spares map := by
  refine .bind (spares_onScheduler map (.begin id)) fun beginning => ?_
  cases beginning with
  | noJob => exact spares_done map _
  | busy => exact spares_done map _
  | begun owner =>
      have hfinish := spares_onScheduler (K := K) (V := V) map (.finish id)
      refine .bind ?_ fun _ => .bind hfinish fun _ => spares_done map _
      refine .bind (spares_onMap map owner .hold fun _ => trivial) fun held => ?_
      split
      · exact .bind (spares_scheduledPass map owner) fun _ => spares_release map (h owner)
      · -- a run that is not let in does nothing
        exact spares_done map _

theorem spares_cancel {retirement : Retirement n K V}
    (h : ∀ other, other ≠ map → (retirement other).Spares map) (owner : Fin n) (id : Nat) :
    (cancel retirement owner id).Spares map := by
  refine .bind (spares_onScheduler map (.cancel owner id)) fun runs => ?_
  split
  · exact .bind (spares_runOnce map h id) fun _ => spares_done map _
  · exact spares_done map _

theorem spares_retire {other : Fin n} (hne : other ≠ map) :
    Spares map (retire (K := K) (V := V) other) := by
  refine .bind (spares_onMap map other .takeJob fun heq => absurd heq hne) fun job => ?_
  cases job with
  | none => exact spares_done map _
  | some id => exact spares_cancel map (fun _ _ => spares_done map _) other id

theorem spares_runJob (id : Nat) : Spares map (runJob (K := K) (V := V) id) :=
  spares_runOnce map (fun _ hne => spares_retire map hne) id

end Operation

end ExpiringMap
