import ExpiringMap.Proofs.Jobs.Orderly
import ExpiringMap.Proofs.Operation.Composition
import ExpiringMap.Proofs.Servings

/-!
# Uses of maps and runs of jobs keep affairs in order

An operation keeps affairs in order if it leaves them orderly whenever it finds them so, and spares
what is in progress meanwhile, provided that hooks do.  This holds of every operation on entries,
of whatever takes a map into use and gives it up again, and so of every run of a job.  When the last
hold on a map is given up its job is cancelled, and a scheduler may run a job in the course of that;
such a run, like any other one of a job of a map that nobody holds, does no more than to find that
out (`ends_runOnce_in_vain`).
-/

namespace ExpiringMap

variable {n : Nat} {S K V α β : Type}

/-! ## The jobs of successful starts -/

/-- The job that the scheduler has accepted in a step. -/
def Moment.acceptedJob? : Moment n S K V → Option Nat
  | ⟨.act (.scheduler (.schedule ..)), .ok accepted, _, _⟩ => some accepted.id
  | _ => none

/-- The job with which a map has been started, if that was the request and it has succeeded. -/
def Serving.startedJob? (map : Fin n) (serving : Serving n S K V) : Option Nat :=
  match serving.request, serving.outcome with
  | .map .start, .ok (.status (.ok ())) =>
      if serving.map = map then serving.moments.findSome? Moment.acceptedJob? else none
  | _, _ => none

/-- The jobs with which a map has been started, the latest last. -/
def startedJobs (servings : List (Serving n S K V)) (map : Fin n) : List Nat :=
  servings.filterMap (Serving.startedJob? map)

@[simp] theorem startedJobs_nil : startedJobs ([] : List (Serving n S K V)) = fun _ => [] := rfl

@[simp] theorem startedJobs_append (earlier later : List (Serving n S K V)) :
    startedJobs (earlier ++ later) =
      fun map => startedJobs earlier map ++ startedJobs later map :=
  funext fun _ => List.filterMap_append

/-! ## Jobs that are given up -/

/-- The job that a map cancels in a step. -/
def Moment.cancelled? (map : Fin n) : Moment n S K V → Option Nat
  | ⟨.act (.scheduler (.cancel other id)), _, _, _⟩ => if other = map then some id else none
  | _ => none

/-- Whether a step is one that a run of a job takes that finds its map gone. -/
def Step.IsVain (map : Fin n) (id : Nat) (step : Step n K V) : Prop :=
  step = .act (.scheduler (.begin id)) ∨ step = .act (.map map .hold) ∨
    step = .act (.scheduler (.finish id))

/-- Whether a step is one of those by which a map gives up a job: the job is taken out and
cancelled, or run in vain in the course of that. -/
def Step.GivesUp (map : Fin n) (job : Option Nat) (step : Step n K V) : Prop :=
  step = .act (.map map .takeJob) ∨
    ∃ id, job = some id ∧ (step = .act (.scheduler (.cancel map id)) ∨ step.IsVain map id)

theorem Step.GivesUp.isAct {map : Fin n} {job : Option Nat} {step : Step n K V}
    (h : step.GivesUp map job) : step.IsAct := by
  rcases h with rfl | ⟨id, -, rfl | rfl | rfl | rfl⟩ <;> trivial

/-! ## Operations -/

variable [DecidableEq K]

/-- What some servings leave of orderly affairs. -/
def KeepsOrder (earlier : Deployment n S K V) (servings : List (Serving n S K V))
    (later : Deployment n S K V) : Prop :=
  earlier.affairs.Orderly →
    later.affairs.Orderly ∧ earlier.affairs.Follows (startedJobs servings) later.affairs

namespace Operation

open Program

section Steps

variable (plan : Plan n S K V) (list : Listing n S K V) (consultation : Consultation n S K V)

/-- Whether an operation keeps affairs in order whatever it finds. -/
def KeepsOrder (operation : Operation n K V α) : Prop :=
  ∀ deployment, deployment.affairs.Orderly →
    operation.Ends (plan.respond consultation) (fun _ moments later =>
      later.affairs.Orderly ∧
        deployment.affairs.Follows (startedJobs (plan.servingsAmong list moments)) later.affairs)
      deployment

end Steps

variable {plan : Plan n S K V} {list : Listing n S K V} {consultation : Consultation n S K V}

theorem keepsOrder_done (result : α) :
    KeepsOrder plan list consultation (.done result : Operation n K V α) :=
  fun deployment h => ⟨h, .refl deployment.affairs⟩

theorem keepsOrder_bind {operation : Operation n K V α} {next : α → Operation n K V β}
    (hoperation : KeepsOrder plan list consultation operation)
    (hnext : ∀ result, KeepsOrder plan list consultation (next result)) :
    KeepsOrder plan list consultation (operation.bind next) := by
  intro deployment h
  refine ends_bind.mpr ((hoperation deployment h).mono fun result earlier between hbetween => ?_)
  refine (hnext result between hbetween.1).mono fun last later state hlast => ?_
  refine ⟨hlast.1, ?_⟩
  rw [Plan.servingsAmong_append, startedJobs_append]
  exact hbetween.2.trans hlast.2

theorem keepsOrder_act {act : Act n K V}
    (hact : ∀ deployment : Deployment n S K V,
      (deployment.perform plan.enumeration act).2.affairs = deployment.affairs) :
    KeepsOrder plan list consultation (.act (.act act) .done) := by
  intro deployment h
  refine ends_act.mpr (ends_done.mpr ?_)
  show (deployment.perform plan.enumeration act).2.affairs.Orderly ∧ deployment.affairs.Follows _
    (deployment.perform plan.enumeration act).2.affairs
  rw [hact]
  exact ⟨h, .refl _⟩

/-- An act on a map that is no matter of its affair keeps affairs in order. -/
theorem keepsOrder_onMap {act : MapAct K V} (hact : ∀ affair, act.onAffair affair = affair)
    (map : Fin n) : KeepsOrder plan list consultation (onMap map act) := by
  refine keepsOrder_act fun deployment => ?_
  exact (Deployment.affairs_onMap ..).trans (Affairs.change_eq_self (hact _))

theorem keepsOrder_onScheduler (act : SchedulerAct n) (hact : act.LeavesJobs) :
    KeepsOrder plan list consultation (onScheduler act) :=
  keepsOrder_act fun deployment => deployment.affairs_onScheduler act hact

variable (hconsult : ∀ map hook deployment,
  ExpiringMap.KeepsOrder deployment (plan.servingsOfHook list map hook deployment)
    (plan.consult consultation map hook deployment).2)
include hconsult

theorem composes_keepsOrder :
    ComposesEntries fun α (operation : Operation n K V α) =>
      KeepsOrder plan list consultation operation where
  done := keepsOrder_done
  step step hstep := by
    cases step with
    | act act =>
        cases act with
        | map map act =>
            refine keepsOrder_onMap (fun affair => ?_) map
            cases act <;> first | rfl | exact hstep.elim
        | clock act => exact keepsOrder_act fun deployment => deployment.affairs_onClock act
        | scheduler act => exact hstep.elim
        | log map record =>
            exact keepsOrder_act fun deployment => deployment.affairs_logged map record
        | sleep ns => exact hstep.elim
    | consult map hook =>
        -- what the hook has started is what has been served within the consultation
        intro deployment h
        refine ends_act.mpr (ends_done.mpr ?_)
        rw [Plan.servingsAmong_consult, Plan.servingsAmong_nil, List.append_nil]
        exact hconsult map hook deployment h
  bind := keepsOrder_bind
  guarded map _ hbody := by
    -- the lock and its unlock start nothing
    refine keepsOrder_bind (keepsOrder_onMap (fun _ => rfl) map) fun _ => ?_
    refine keepsOrder_bind hbody fun result => ?_
    exact keepsOrder_bind (keepsOrder_onMap (fun _ => rfl) map) fun _ => keepsOrder_done result

theorem keepsOrder_scheduledPass (map : Fin n) :
    KeepsOrder plan list consultation (scheduledPass map) := by
  have hlog : ∀ record, KeepsOrder plan list consultation (log (K := K) (V := V) map record) :=
    (composes_keepsOrder hconsult).log map
  refine keepsOrder_bind (keepsOrder_onMap (fun _ => rfl) map) fun phase => ?_
  split
  · refine keepsOrder_bind (hlog _) fun _ => ?_
    refine keepsOrder_bind ((composes_keepsOrder hconsult).pass map) fun outcome => ?_
    cases outcome with
    | ok _ => exact keepsOrder_done ()
    | error panic => exact hlog _
  · exact hlog _

omit hconsult

/-! ## Giving up a hold -/

section Gone

variable (plan list consultation)

/-- A run of a job whose map nobody holds finds that out, and that is all. -/
theorem ends_runOnce_in_vain {map : Fin n} {id : Nat} {deployment : Deployment n S K V}
    (howner : deployment.affairs.owners[id]? = some map)
    (hgone : ¬ (deployment.affairs.of map).IsHeld) (retirement : Retirement n K V) :
    (runOnce retirement id).Ends (plan.respond consultation) (fun _ moments later =>
      (∀ moment ∈ moments, moment.act.IsVain map id) ∧ later.affairs = deployment.affairs)
      deployment := by
  obtain ⟨beginning, begun, heq, hbegun, howned⟩ := deployment.onScheduler_cases_begin id
  refine (ends_onScheduler_bind heq).mpr ?_
  cases beginning with
  | noJob => exact ends_done.mpr ⟨by simp [Step.IsVain], hbegun⟩
  | busy => exact ends_done.mpr ⟨by simp [Step.IsVain], hbegun⟩
  | begun other =>
      obtain rfl : map = other := Option.some.inj (howner.symm.trans (howned other rfl))
      -- nobody holds the map, so the run is not let in
      obtain ⟨later, heq, hheld, -⟩ | ⟨later, heq, -, hlater⟩ :=
        begun.onMap_cases_hold plan.enumeration map
      · exact absurd (hbegun ▸ hheld) hgone
      refine ends_bind.mpr ((ends_onMap_bind heq).mpr (ends_done.mpr ?_))
      refine (ends_onScheduler_bind rfl).mpr (ends_done.mpr ⟨by simp [Step.IsVain], ?_⟩)
      exact (later.affairs_onScheduler (.finish id) trivial).trans (hlater.trans hbegun)

/-- The cancellation of the job of a map that nobody holds is not followed by anything but a run in
vain. -/
theorem ends_cancel_in_vain {map : Fin n} {id : Nat} {deployment : Deployment n S K V}
    (howner : deployment.affairs.owners[id]? = some map)
    (hgone : ¬ (deployment.affairs.of map).IsHeld) :
    (cancel (fun _ => return) map id : Operation n K V Unit).Ends (plan.respond consultation)
      (fun _ moments later => later.affairs = deployment.affairs.cancel map id ∧
        (∀ moment ∈ moments, moment.act.GivesUp map (some id)) ∧
        moments.filterMap (Moment.cancelled? map) = [id]) deployment := by
  obtain ⟨runs, marked, heq, hcancelled⟩ := Deployment.exists_onScheduler_cancel map howner
  refine (ends_onScheduler_bind heq).mpr ?_
  cases runs with
  | false => exact ends_done.mpr ⟨hcancelled, by simp [Step.GivesUp], by simp [Moment.cancelled?]⟩
  | true =>
      -- the run on cancelling finds nobody who holds the map
      have howner' : marked.affairs.owners[id]? = some map := by rwa [hcancelled]
      have hgone' : ¬ (marked.affairs.of map).IsHeld := by rwa [hcancelled]
      have hrun := ends_runOnce_in_vain plan consultation howner' hgone' fun _ => return
      refine ends_bind.mpr (hrun.mono fun _ moments later ⟨hvain, hlater⟩ => ends_done.mpr ?_)
      -- a run that is not let in cancels nothing
      have hnone : moments.filterMap (Moment.cancelled? map) = [] := by
        refine List.filterMap_eq_nil_iff.mpr fun moment hmoment => ?_
        have hact := hvain moment hmoment
        obtain ⟨act, answer, before, after⟩ := moment
        rcases hact with rfl | rfl | rfl <;> rfl
      refine ⟨hlater.trans hcancelled, ?_, ?_⟩
      · rw [List.append_nil, List.forall_mem_cons]
        exact ⟨.inr ⟨id, rfl, .inl rfl⟩,
          fun moment hmoment => .inr ⟨id, rfl, .inr (hvain moment hmoment)⟩⟩
      · rw [List.append_nil, List.filterMap_cons, hnone]
        simp [Moment.cancelled?]

/-- When the last hold on a map has been given up, its job is cancelled. -/
theorem ends_retire {earlier before : Affairs n} {map : Fin n} {started : Fin n → List Nat}
    {deployment : Deployment n S K V} (hbefore : before.Orderly)
    (hquiet : ¬ (before.of map).phase.InTransit) (hgone : ¬ (before.of map).letGo.IsHeld)
    (hleft : deployment.affairs = before.change map Affair.letGo)
    (hfollows : earlier.Follows started deployment.affairs) :
    (retire map : Operation n K V Unit).Ends (plan.respond consultation) (fun _ moments later =>
      plan.servingsAmong list moments = [] ∧ later.affairs.Orderly ∧
        earlier.Follows started later.affairs) deployment := by
  have hself : deployment.affairs.of map = (before.of map).letGo := by simp [hleft]
  have hkept : (deployment.affairs.of map).job = (before.of map).job := by
    rw [hself, Affair.letGo]
  obtain ⟨taken, heq, htaken⟩ := deployment.onMap_takeJob plan.enumeration map
  refine (ends_onMap_bind heq).mpr ?_
  cases hjob : (deployment.affairs.of map).job with
  | none =>
      have hsame : (deployment.affairs.of map).dropJob = deployment.affairs.of map := by
        simp only [Affair.dropJob, ← hjob]
      rw [Affairs.change_eq_self hsame] at htaken
      refine ends_done.mpr ⟨rfl, ?_, htaken ▸ hfollows⟩
      rw [htaken, hleft]
      exact hbefore.leave hquiet hgone (hkept.symm.trans hjob)
  | some id =>
      -- the job belongs to the map, so it may be cancelled, and nobody else is concerned
      obtain ⟨howner, horderly⟩ := hbefore.abandon hquiet hgone (hkept.symm.trans hjob)
      have howner' : taken.affairs.owners[id]? = some map := by simpa [htaken, hleft] using howner
      have hlast : taken.affairs.of map = (before.of map).letGo.dropJob := by
        simp [htaken, hself]
      have hgone' : ¬ (taken.affairs.of map).IsHeld := by
        rw [hlast]
        exact hgone
      have hcancel := ends_cancel_in_vain plan consultation howner' hgone'
      refine hcancel.mono fun _ moments later hvain => ?_
      obtain ⟨hlater, hgives, -⟩ := hvain
      refine ⟨?_, ?_⟩
      · rw [Plan.servingsAmong_act]
        exact plan.servingsAmong_eq_nil list fun moment hmoment => (hgives moment hmoment).isAct
      rw [hlater, htaken]
      refine ⟨hleft ▸ horderly, hfollows.dispose ?_ ?_ ?_⟩
      · rw [hleft]
        exact hbefore.toRecorded.change rfl
      · rw [hleft]
        exact howner
      · rwa [hself]

/-- Whatever has been done with a map in use, affairs are in order when the use has been given up,
be it the last hold on the map or not. -/
theorem ends_release {earlier : Affairs n} {map : Fin n} {act : Affair → Affair}
    {started : Fin n → List Nat} {deployment : Deployment n S K V} (hearlier : earlier.Orderly)
    (hused : (earlier.of map).Used (act (earlier.of map)))
    (hfollows : (earlier.change map act).Follows started deployment.affairs)
    (h : deployment.affairs.Orderly) :
    (release retire map).Ends (plan.respond consultation) (fun _ moments later =>
      plan.servingsAmong list moments = [] ∧ later.affairs.Orderly ∧
        earlier.Follows started later.affairs) deployment := by
  have hafter := hfollows.letGo hused
  obtain ⟨last, left, heq, hlast, hleft⟩ := deployment.onMap_letGo plan.enumeration map
  refine (ends_onMap_bind heq).mpr ?_
  cases last with
  | false =>
      have hheld : (deployment.affairs.of map).letGo.IsHeld := by simpa using hlast
      refine ends_done.mpr ⟨rfl, ?_⟩
      rw [hleft]
      exact ⟨hearlier.letGo hused hfollows h hheld, hafter⟩
  | true =>
      -- the map is gone, so it gives up its job
      have hgone : ¬ (deployment.affairs.of map).letGo.IsHeld := hlast.mp rfl
      have hquiet := hearlier.quiet hused hfollows hgone
      exact ends_retire plan list consultation h hquiet hgone hleft (hleft ▸ hafter)

end Gone

theorem keepsOrder_dropHandle (map : Fin n) :
    KeepsOrder plan list consultation (dropHandle (K := K) (V := V) map) := by
  intro deployment h
  obtain ⟨taken, heq, hheld, htaken⟩ | ⟨later, heq, hlater⟩ :=
    deployment.onMap_cases_takeHandle plan.enumeration map
  · -- the handle becomes a use, which is then given up
    have hused := Affair.used_takeHandle hheld
    have hfollows : (deployment.affairs.change map Affair.takeHandle).Follows (fun _ => [])
        taken.affairs := htaken ▸ .refl _
    have hreleased := ends_release plan list consultation h hused hfollows (htaken ▸ h.use hused)
    refine (ends_onMap_bind heq).mpr (ends_bind.mpr ?_)
    refine hreleased.mono fun _ moments last hlast => ends_done.mpr ?_
    rw [List.append_nil, Plan.servingsAmong_act, hlast.1]
    exact hlast.2
  · refine (ends_onMap_bind heq).mpr (ends_done.mpr ?_)
    rw [hlater]
    exact ⟨h, .refl _⟩

/-! ## Jobs -/

include hconsult

theorem keepsOrder_task (map : Fin n) : KeepsOrder plan list consultation (task retire map) := by
  intro deployment h
  obtain ⟨held, heq, hheld, hinUse⟩ | ⟨later, heq, -, hlater⟩ :=
    deployment.onMap_cases_hold plan.enumeration map
  · have hused := Affair.used_use hheld
    have hbody := keepsOrder_scheduledPass hconsult map held (hinUse ▸ h.use hused)
    refine (ends_onMap_bind heq).mpr (ends_bind.mpr (hbody.mono fun _ moments run hrun => ?_))
    rw [hinUse] at hrun
    refine (ends_release plan list consultation h hused hrun.2 hrun.1).mono
      fun _ more last hlast => ⟨hlast.2.1, ?_⟩
    rw [Plan.servingsAmong_act, Plan.servingsAmong_append, hlast.1, List.append_nil]
    exact hlast.2.2
  · refine (ends_onMap_bind heq).mpr (ends_done.mpr ?_)
    rw [hlater]
    exact ⟨h, .refl _⟩

theorem keepsOrder_runJob (id : Nat) : KeepsOrder plan list consultation (runJob id) := by
  refine keepsOrder_bind (keepsOrder_onScheduler (.begin id) trivial) fun beginning => ?_
  cases beginning with
  | noJob => exact keepsOrder_done _
  | busy => exact keepsOrder_done _
  | begun owner =>
      refine keepsOrder_bind (keepsOrder_task hconsult owner) fun _ => ?_
      exact keepsOrder_bind (keepsOrder_onScheduler (.finish id) trivial) fun _ => keepsOrder_done _

theorem keepsOrder_runReady (count id : Nat) :
    KeepsOrder plan list consultation (runReady (K := K) (V := V) count id) := by
  induction count generalizing id with
  | zero => exact keepsOrder_done _
  | succ count ih =>
      refine keepsOrder_bind (keepsOrder_onScheduler (.isReady id) trivial) fun ready => ?_
      split
      · refine keepsOrder_bind (keepsOrder_runJob hconsult id) fun _ => ?_
        exact keepsOrder_bind (ih (id + 1)) fun _ => keepsOrder_done _
      · exact ih (id + 1)

end Operation

end ExpiringMap
