import ExpiringMap.Proofs.Acts
import ExpiringMap.Proofs.Concurrent.Execution

/-!
# Deployments that differ in the clock alone

What the clock shows is the one thing in a deployment that others may change while a client holds
the lock.  Two deployments that are alike but for the clock stay alike under the same deeds, if
the acts on the clock are shown the same in both (`Alike.perform`).
-/

namespace ExpiringMap

variable {n : Nat} {S K V : Type}

def Event.isClockMoved : Event n K V → Bool
  | clockMoved _ => true
  | _ => false

/-- The events that are more than that the clock has moved. -/
def Event.apartFromClock (events : List (Event n K V)) : List (Event n K V) :=
  events.filter fun event => !event.isClockMoved

@[simp] theorem Clock.runs_elapse (clock : Clock) (ns : Nat) :
    (clock.elapse ns).runs = clock.runs := by
  unfold elapse
  split <;> rfl

@[simp] theorem Clock.foreseen_elapse (clock : Clock) (ns : Nat) :
    (clock.elapse ns).foreseen = clock.foreseen := by
  unfold elapse
  split <;> rfl

/-- No act makes a clock run or stop. -/
@[simp] theorem ClockAct.runs_apply (act : ClockAct) (clock : Clock) :
    (act.apply clock).runs = clock.runs := by
  unfold apply
  split
  · cases act <;> simp [applyAlone]
  · rfl

theorem ClockAct.apply_of_foreseen {clock : Clock} {now : Instant} {foreseen : List Instant}
    (h : clock.foreseen = now :: foreseen) (act : ClockAct) :
    act.apply clock = { clock with now, foreseen } := by
  simp [apply, h]

namespace Deployment

/-- The deployment with what its clock is going to show laid down. -/
def foreseeing (deployment : Deployment n S K V) (foreseen : List Instant) :
    Deployment n S K V :=
  { deployment with clock.foreseen := foreseen }

/-- Whether two deployments differ at most in what the clock shows, and in what the journal says
of it. -/
structure Alike (first second : Deployment n S K V) : Prop where
  maps : first.maps = second.maps
  scheduler : first.scheduler = second.scheduler
  memory : first.memory = second.memory
  runs : first.clock.runs = second.clock.runs
  journal : Event.apartFromClock first.journal = Event.apartFromClock second.journal

namespace Alike

variable {first second : Deployment n S K V}

theorem refl (deployment : Deployment n S K V) : deployment.Alike deployment :=
  ⟨rfl, rfl, rfl, rfl, rfl⟩

theorem trans {third : Deployment n S K V} (h : first.Alike second) (h' : second.Alike third) :
    first.Alike third :=
  ⟨h.maps.trans h'.maps, h.scheduler.trans h'.scheduler, h.memory.trans h'.memory,
    h.runs.trans h'.runs, h.journal.trans h'.journal⟩

theorem symm (h : first.Alike second) : second.Alike first :=
  ⟨h.maps.symm, h.scheduler.symm, h.memory.symm, h.runs.symm, h.journal.symm⟩

theorem state_eq (h : first.Alike second) (map : Fin n) : first.state map = second.state map :=
  congrArg (fun maps => Vector.get maps map) h.maps

theorem note (h : first.Alike second) (events : List (Event n K V)) :
    (first.note events).Alike (second.note events) where
  maps := h.maps
  scheduler := h.scheduler
  memory := h.memory
  runs := h.runs
  journal := by
    have hjournal := h.journal
    simp only [Event.apartFromClock, journal_note, List.filter_append] at hjournal ⊢
    rw [hjournal]

theorem withMemory (h : first.Alike second) (memory : S) :
    ({ first with memory } : Deployment n S K V).Alike { second with memory } :=
  ⟨h.maps, h.scheduler, rfl, h.runs, h.journal⟩

theorem withScheduler (h : first.Alike second) (scheduler : Scheduler n) :
    ({ first with scheduler } : Deployment n S K V).Alike { second with scheduler } :=
  ⟨h.maps, rfl, h.memory, h.runs, h.journal⟩

theorem setState (h : first.Alike second) (map : Fin n) (state : MapState K V) :
    (first.setState map state).Alike (second.setState map state) :=
  ⟨congrArg (fun maps => maps.set map.val state map.isLt) h.maps, h.scheduler, h.memory, h.runs,
    h.journal⟩

theorem foreseeing (deployment : Deployment n S K V) (foreseen : List Instant) :
    (deployment.foreseeing foreseen).Alike deployment :=
  ⟨rfl, rfl, rfl, rfl, rfl⟩

/-- What is noted of the clock makes no difference. -/
theorem note_clock (h : first.Alike second) {events : List (Event n K V)}
    (hevents : ∀ event ∈ events, event.isClockMoved = true) : (first.note events).Alike second where
  maps := h.maps
  scheduler := h.scheduler
  memory := h.memory
  runs := h.runs
  journal := by
    have hnone : Event.apartFromClock events.reverse = [] :=
      List.filter_eq_nil_iff.mpr fun event hevent => by
        simp [hevents event (List.mem_reverse.mp hevent)]
    rw [journal_note, Event.apartFromClock, List.filter_append]
    exact (congrArg (· ++ _) hnone).trans h.journal

/-- An act on the clock changes nothing else. -/
theorem onClock (deployment : Deployment n S K V) (act : ClockAct) :
    (deployment.onClock act).2.Alike deployment := by
  have hclock : ({ deployment with clock := act.apply deployment.clock } :
      Deployment n S K V).Alike deployment :=
    ⟨rfl, rfl, rfl, act.runs_apply deployment.clock, rfl⟩
  refine hclock.note_clock fun event hevent => ?_
  split at hevent
  · rw [List.mem_singleton.mp hevent]
    rfl
  · simp at hevent

theorem elapse (h : first.Alike second) (ns : Nat) :
    (first.elapse ns).Alike (second.elapse ns) := by
  have hevents : ∀ (deployment : Deployment n S K V) (event : Event n K V),
      (event ∈ if deployment.clock.runs then
        [.clockMoved (deployment.clock.elapse ns).now] else []) → event.isClockMoved = true := by
    intro deployment event hevent
    split at hevent
    · rw [List.mem_singleton.mp hevent]
      rfl
    · simp at hevent
  refine note_clock (symm (note_clock ?_ (hevents second))) (hevents first)
  refine ⟨h.maps.symm, congrArg (·.elapse ns) h.scheduler.symm, h.memory.symm, ?_, h.journal.symm⟩
  simp [h.runs]

variable [DecidableEq K]

/-- Deployments that are alike stay alike under a deed, and it is answered the same in both, if
an act on the clock finds laid down in the one what the clock shows in the other. -/
theorem perform (h : first.Alike second) (plan : Plan n S K V) (deed : Deed n S K V)
    {foreseen : List Instant}
    (hforeseen : first.clock.foreseen = deed.shown (plan.perform deed second).1 ++ foreseen) :
    (plan.perform deed first).1 = (plan.perform deed second).1 ∧
      (plan.perform deed first).2.Alike (plan.perform deed second).2 ∧
      (plan.perform deed first).2.clock.foreseen = foreseen := by
  cases deed with
  | act act =>
      cases act with
      | map map act =>
          have hstate := h.state_eq map
          refine ⟨congrArg (act.answer _) hstate, ?_, hforeseen⟩
          simp only [Plan.perform, Deployment.perform, Deployment.onMap, hstate]
          exact (h.setState map _).note _
      | clock act =>
          -- what the clock shows in the one is what has been laid down in the other
          have happly := act.apply_of_foreseen hforeseen
          have hnow : (act.apply first.clock).now = (second.onClock act).1 := by
            rw [happly]
            rfl
          refine ⟨hnow, ?_, congrArg Clock.foreseen happly⟩
          exact (onClock first act).trans (h.trans (onClock second act).symm)
      | scheduler act =>
          refine ⟨congrArg act.answer h.scheduler, ?_, hforeseen⟩
          simp only [Plan.perform, Deployment.perform, Deployment.onScheduler, h.scheduler]
          exact (h.withScheduler _).note _
      | log map record => exact ⟨rfl, h.note _, hforeseen⟩
      | sleep ns => exact ⟨rfl, h.elapse ns, (first.clock.foreseen_elapse ns).trans hforeseen⟩
  | enter map hook =>
      simp only [Plan.perform, Plan.enter, h.memory]
      split
      · exact ⟨rfl, h, hforeseen⟩
      · exact ⟨rfl, (h.withMemory _).note _, hforeseen⟩
  | resume map call outcome remember =>
      simp only [Plan.perform, Deployment.resume, h.memory]
      exact ⟨trivial, (h.withMemory _).note _, hforeseen⟩
  | leave map hook verdict => exact ⟨rfl, h.note _, hforeseen⟩
  | gather => exact ⟨rfl, h.note _, hforeseen⟩

end Alike

end Deployment

end ExpiringMap
