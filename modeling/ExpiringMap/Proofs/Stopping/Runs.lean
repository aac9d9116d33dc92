import ExpiringMap.Proofs.Operation.Moments
import ExpiringMap.Proofs.Stopping.Phases

/-!
# Runs of the jobs of a map that is stopped

From the moment at which a stop gets through until a start does, a run of any job of the map comes
to nothing, whoever makes it and whichever start the job stems from (`idle_runOnce`): it finds the
map in a phase that allows none, says so in the log and gives its use back, which cannot be the last
hold on the map since the run has found it held.
-/

namespace ExpiringMap

variable {n : Nat} {S K V α : Type}

/-- Whether the lifecycle call of a map that got through last is a stop. -/
def Deployment.IsHalted (deployment : Deployment n S K V) (map : Fin n) : Prop :=
  lastCall? map deployment.journal = some .stop

theorem Deployment.Sound.not_allowsRuns {deployment : Deployment n S K V} (h : deployment.Sound)
    {map : Fin n} (hhalted : deployment.IsHalted map) :
    (deployment.state map).phase.allowsRuns = false := by
  by_contra hallows
  have hstarted := h.started map (Bool.of_not_eq_false hallows)
  rw [hhalted] at hstarted
  cases hstarted

/-! ## Idle steps -/

/-- Whether a step has nothing to do with entries, locks and hooks. -/
def Step.IsIdle : Step n K V → Prop
  | .act (.scheduler _) | .act (.log ..) => True
  | .act (.map _ .readPhase) | .act (.map _ .hold) | .act (.map _ .letGo) => True
  | _ => False

/-- Whether a step calls no hook, takes no lock and leaves all stores as they are. -/
structure Moment.IsIdle (moment : Moment n S K V) : Prop where
  hookless : ∀ map hook, moment.act ≠ .consult map hook
  lockless : ∀ map, moment.act ≠ .act (.map map .lock)
  stores : ∀ map, (moment.after.state map).store = (moment.before.state map).store

/-- Whether all stores are as they were, and the journal has no more to tell of any map. -/
structure Deployment.Idles (earlier later : Deployment n S K V) : Prop where
  stores : ∀ map, (later.state map).store = (earlier.state map).store
  journal : ∃ events, later.journal = events ++ earlier.journal ∧
    ∀ map event, Event.ofMap map event ∉ events

theorem Deployment.Idles.refl (deployment : Deployment n S K V) : deployment.Idles deployment :=
  ⟨fun _ => rfl, [], rfl, by simp⟩

theorem Deployment.Idles.trans {first second third : Deployment n S K V} (h : first.Idles second)
    (h' : second.Idles third) : first.Idles third := by
  obtain ⟨earlier, hearlier, hnone⟩ := h.journal
  obtain ⟨later, hlater, hnone'⟩ := h'.journal
  refine ⟨fun map => (h'.stores map).trans (h.stores map), later ++ earlier, ?_, ?_⟩
  · rw [hlater, hearlier, List.append_assoc]
  · simpa [List.mem_append, not_or] using fun map event => ⟨hnone' map event, hnone map event⟩

theorem Deployment.Aside.idles {earlier later : Deployment n S K V} (h : earlier.Aside later) :
    earlier.Idles later :=
  ⟨fun map => congrArg MapState.store (h.state map), h.journal⟩

variable [DecidableEq K] {plan : Plan n S K V} {consultation : Consultation n S K V}

theorem Step.IsIdle.idles {step : Step n K V} (h : step.IsIdle) (deployment : Deployment n S K V) :
    deployment.Idles (plan.respond consultation step deployment).2 := by
  cases step with
  | consult map hook => exact h.elim
  | act act =>
      rcases deployment.aside_perform plan.enumeration act with haside | ⟨map, done, rfl⟩
      · exact haside.idles
      refine ⟨fun other => ?_, [], ?_, by simp⟩
      · show ((deployment.onMap plan.enumeration map done).2.state other).store = _
        rw [Deployment.state_onMap]
        split
        · next heq =>
          subst heq
          cases done <;> first | exact h.elim | rfl | (simp only [MapAct.apply]; split <;> rfl)
        · rfl
      · cases done <;> first | exact h.elim | rfl

theorem Moment.idles_of_mem_trace {operation : Operation n K V α}
    {deployment : Deployment n S K V} {moment : Moment n S K V}
    (hmoment : moment ∈ operation.trace (plan.respond consultation) deployment)
    (h : moment.act.IsIdle) : moment.before.Idles moment.after := by
  have hrespond := Program.respond_of_mem_trace _ hmoment
  have hidles : moment.before.Idles (plan.respond consultation moment.act moment.before).2 :=
    h.idles moment.before
  rwa [hrespond] at hidles

theorem Moment.isIdle_of_mem_trace {operation : Operation n K V α} {deployment : Deployment n S K V}
    {moment : Moment n S K V}
    (hmoment : moment ∈ operation.trace (plan.respond consultation) deployment)
    (h : moment.act.IsIdle) : moment.IsIdle := by
  refine ⟨fun map hook hact => ?_, fun map hact => ?_, (idles_of_mem_trace hmoment h).stores⟩
  · rw [hact] at h
    exact h
  · rw [hact] at h
    exact h

/-! ## Runs -/

namespace Operation

open Program

/-- A scheduled pass that finds a phase that allows no runs says so in the log. -/
theorem idle_scheduledPass {map : Fin n} {deployment : Deployment n S K V}
    (h : (deployment.state map).phase.allowsRuns = false) :
    (scheduledPass map).Ends (plan.respond consultation) (fun _ moments later =>
      (∀ moment ∈ moments, moment.act.IsIdle) ∧ later.affairs = deployment.affairs)
      deployment := by
  obtain ⟨phase, read, heq, hread⟩ := deployment.exists_onMap plan.enumeration map .readPhase
  obtain rfl : (deployment.state map).phase = phase := congrArg Prod.fst heq
  refine (ends_onMap_bind heq).mpr ?_
  have hlogged : (read.note [.logged map .runNotAllowed]).affairs = deployment.affairs :=
    (read.affairs_logged map _).trans (hread.trans (Affairs.change_eq_self rfl))
  rw [h]
  refine ends_act.mpr (ends_done.mpr ⟨?_, hlogged⟩)
  simp [Step.IsIdle]

/-- The task of a job takes a use of the map and gives it back, which is not the last hold on it. -/
theorem idle_task (retirement : Retirement n K V) {map : Fin n} {deployment : Deployment n S K V}
    (h : (deployment.state map).phase.allowsRuns = false) :
    (task retirement map).Ends (plan.respond consultation) (fun _ moments _ =>
      ∀ moment ∈ moments, moment.act.IsIdle) deployment := by
  obtain ⟨held, heq, hheld, hused⟩ | ⟨gone, heq, -⟩ :=
    deployment.onMap_cases_hold plan.enumeration map
  swap
  · exact (ends_onMap_bind heq).mpr (ends_done.mpr (by simp [Step.IsIdle]))
  have hphase : (held.state map).phase.allowsRuns = false := by
    have haffair : held.affairs.of map = (deployment.affairs.of map).use := by simp [hused]
    exact (congrArg (Phase.allowsRuns ∘ Affair.phase) haffair).trans h
  refine (ends_onMap_bind heq).mpr (ends_bind.mpr ?_)
  refine (idle_scheduledPass hphase).mono fun _ pass passed ⟨hpass, hleft⟩ => ?_
  obtain ⟨last, later, heq, hlast, -⟩ := passed.onMap_letGo plan.enumeration map
  have hkept : last = false := by
    refine Bool.eq_false_iff.mpr fun htrue => hlast.mp htrue ?_
    rw [hleft, hused]
    simpa [Affair.use, Affair.letGo, Affair.IsHeld] using hheld
  subst hkept
  refine (ends_onMap_bind heq).mpr (ends_done.mpr ?_)
  simp only [List.forall_mem_cons, List.forall_mem_append]
  exact ⟨trivial, hpass, trivial, by simp⟩

/-- A run of a job whose map is in a phase that allows none has nothing to do with entries, locks
and hooks. -/
theorem idle_runOnce (retirement : Retirement n K V) {map : Fin n} {id : Nat}
    {deployment : Deployment n S K V} (howner : deployment.affairs.owners[id]? = some map)
    (h : (deployment.state map).phase.allowsRuns = false) :
    (runOnce retirement id).Ends (plan.respond consultation) (fun _ moments _ =>
      ∀ moment ∈ moments, moment.act.IsIdle) deployment := by
  obtain ⟨beginning, begun, heq, hbegun, howned⟩ := deployment.onScheduler_cases_begin id
  refine (ends_onScheduler_bind heq).mpr ?_
  cases beginning with
  | noJob => exact ends_done.mpr (by simp [Step.IsIdle])
  | busy => exact ends_done.mpr (by simp [Step.IsIdle])
  | begun other =>
      obtain rfl : map = other := Option.some.inj (howner.symm.trans (howned other rfl))
      have hphase : (begun.state map).phase.allowsRuns = false :=
        (congrArg (fun affairs => (affairs.of map).phase.allowsRuns) hbegun).trans h
      refine ends_bind.mpr ((idle_task retirement hphase).mono fun _ moments later hidle => ?_)
      refine (ends_onScheduler_bind rfl).mpr (ends_done.mpr ?_)
      simp only [List.forall_mem_cons, List.forall_mem_append]
      exact ⟨trivial, hidle, trivial, by simp⟩

/-- What is idle step by step is idle as a whole. -/
theorem idles_of_ends {operation : Operation n K V α} {deployment : Deployment n S K V}
    (h : operation.Ends (plan.respond consultation)
      (fun _ moments _ => ∀ moment ∈ moments, moment.act.IsIdle) deployment) :
    operation.Ends (plan.respond consultation) (fun _ moments later =>
      (∀ moment ∈ moments, moment.act.IsIdle) ∧ deployment.Idles later) deployment :=
  ⟨h, run_of_trace _ Deployment.Idles .refl .trans operation fun moment hmoment =>
    Moment.idles_of_mem_trace hmoment (h moment hmoment)⟩

/-- So has the cancellation of such a job, whether the scheduler runs it once more or not. -/
theorem idle_cancel (retirement : Retirement n K V) {map : Fin n} {id : Nat}
    {deployment : Deployment n S K V} (howner : deployment.affairs.owners[id]? = some map)
    (h : (deployment.state map).phase.allowsRuns = false) :
    (cancel retirement map id).Ends (plan.respond consultation) (fun _ moments _ =>
      ∀ moment ∈ moments, moment.act.IsIdle) deployment := by
  rcases heq : deployment.onScheduler (.cancel map id) with ⟨runs, marked⟩
  refine (ends_onScheduler_bind heq).mpr ?_
  cases runs with
  | false => exact ends_done.mpr (by simp [Step.IsIdle])
  | true =>
      have howners := deployment.owners_onScheduler (.cancel map id)
      have hstate := (deployment.aside_onScheduler (.cancel map id)).state map
      rw [heq] at howners hstate
      refine ends_bind.mpr ((idle_runOnce retirement (Deployment.owner_stays howners howner)
        (hstate ▸ h)).mono fun _ moments _ hidle => ends_done.mpr ?_)
      simpa [Step.IsIdle] using hidle

end Operation

/-- Whether, once a map is halted, runs of any job that it has ever scheduled come to nothing. -/
def Deployment.RunsIdly (plan : Plan n S K V) (map : Fin n) (deployment : Deployment n S K V) :
    Prop :=
  deployment.IsHalted map → ∀ id job, deployment.scheduler.jobs[id]? = some job →
    job.owner = map → ∀ retirement consultation,
      ∀ moment : Moment n S K V,
        moment ∈ (Operation.runOnce retirement id).trace (plan.respond consultation) deployment →
          moment.IsIdle

theorem Deployment.Sound.runsIdly {deployment : Deployment n S K V} (h : deployment.Sound)
    (plan : Plan n S K V) (map : Fin n) : deployment.RunsIdly plan map := by
  intro hhalted id job hjob howner retirement consultation moment hmoment
  have howned : deployment.affairs.owners[id]? = some map :=
    howner ▸ Deployment.owners_of_job hjob
  exact Moment.isIdle_of_mem_trace hmoment
    (Operation.idle_runOnce retirement howned (h.not_allowsRuns hhalted) moment hmoment)

end ExpiringMap
