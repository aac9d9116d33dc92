import ExpiringMap.Proofs.Operation.Moments
import ExpiringMap.Proofs.Stopping.Closing

/-!
# What lifecycle calls are answered

A start and a stop can be asked for at any time: from outside, from a hook that a pass consults, and
from a hook of the pass that a scheduler runs while it takes the task of a start or cancels the job
of a stop.  What they come to depends on the moment at which they are made and on nothing else:

* A start succeeds if the map is stopped, the scheduler is not shut down and it does not refuse the
  task (`start_answered`).  This is asked in turn, and the first thing that is not so makes the
  error.
* A stop succeeds if the map is started (`stop_answered`).

A start may fail when it has moved the map to another phase already, so it has to move it back.
After an error maps and scheduler are as they were (`Deployment.Unaltered`).  After a stop the map
is empty, stopped and without a job (`Deployment.AtRest`), whatever hooks have done in the
meantime, since no lifecycle call of theirs gets through (`lasting_staysClosing`).
-/

namespace ExpiringMap

open Operation Program

variable {n : Nat} {S K V : Type}

namespace Deployment

/-! ## What is left as it was -/

/-- Whether all maps and the scheduler are as they were, and no job has been cancelled since. -/
structure Unaltered (earlier later : Deployment n S K V) : Prop where
  state : ∀ map, later.state map = earlier.state map
  scheduler : later.scheduler = earlier.scheduler
  cancellers : ∀ id, later.cancellersOf id = earlier.cancellersOf id

variable {earlier later deployment : Deployment n S K V} {map : Fin n}

theorem Unaltered.refl (deployment : Deployment n S K V) : deployment.Unaltered deployment :=
  ⟨fun _ => rfl, rfl, fun _ => rfl⟩

theorem Unaltered.trans {first second third : Deployment n S K V} (h : first.Unaltered second)
    (h' : second.Unaltered third) : first.Unaltered third where
  state map := (h'.state map).trans (h.state map)
  scheduler := h'.scheduler.trans h.scheduler
  cancellers id := (h'.cancellers id).trans (h.cancellers id)

theorem setState_self (deployment : Deployment n S K V) (map : Fin n) :
    deployment.setState map (deployment.state map) = deployment := by
  have hmaps : deployment.maps.set map.val (deployment.state map) map.isLt = deployment.maps :=
    Vector.set_getElem_self map.isLt
  rw [setState, hmaps]

/-- An act on a map alters that map alone. -/
theorem Unaltered.onMap [DecidableEq K] {state : MapState K V}
    (h : (deployment.setState map state).Unaltered later) (enumeration : Fin n → Enumeration K V)
    (act : MapAct K V) :
    (deployment.setState map (act.apply state)).Unaltered
      (later.onMap enumeration map act).2 where
  state other := by
    have hmap := h.state map
    have hother := h.state other
    rw [state_setState] at hmap hother ⊢
    rw [state_onMap, hmap, hother, if_pos rfl]
    split <;> rfl
  scheduler := h.scheduler
  cancellers id := by
    have haffairs := congrArg Affairs.cancellers (later.affairs_onMap enumeration map act)
    exact (congrFun haffairs id).trans (h.cancellers id)

theorem unaltered_onMap [DecidableEq K] (deployment : Deployment n S K V) (map : Fin n)
    (enumeration : Fin n → Enumeration K V) (act : MapAct K V) :
    (deployment.setState map (act.apply (deployment.state map))).Unaltered
      (deployment.onMap enumeration map act).2 := by
  have hself : (deployment.setState map (deployment.state map)).Unaltered deployment := by
    rw [setState_self]
    exact .refl deployment
  exact hself.onMap enumeration act

/-- An act on the scheduler by which it does not change alters nothing, unless a cancellation comes
of it. -/
theorem unaltered_onScheduler (deployment : Deployment n S K V) {act : SchedulerAct n}
    (happly : act.apply deployment.scheduler = deployment.scheduler)
    (hevents : ∀ map id, .cancelled map id ∉ act.events deployment.scheduler) :
    deployment.Unaltered (deployment.onScheduler act).2 where
  state _ := rfl
  scheduler := happly
  cancellers id := by
    rw [cancellersOf_onScheduler, List.filterMap_eq_nil_iff.mpr, List.nil_append]
    intro event hevent
    obtain ⟨happened, hmem, rfl⟩ := List.mem_map.mp (List.mem_reverse.mp hevent)
    cases happened with
    | cancelled map other => exact absurd hmem (hevents map other)
    | shutdown | refusing | scheduled | refused | began | finished => rfl

theorem onScheduler_isShutdown (deployment : Deployment n S K V) :
    ∃ later, deployment.onScheduler .isShutdown = (deployment.scheduler.isShutdown, later) ∧
      deployment.Unaltered later :=
  ⟨_, rfl, deployment.unaltered_onScheduler rfl fun _ _ => List.not_mem_nil⟩

/-- A scheduler that refuses a task is left as it was. -/
theorem onScheduler_schedule_of_some {error : Error}
    (h : deployment.scheduler.objection? = some error) (initialDelay delay : Duration) :
    ∃ later, deployment.onScheduler (.schedule map initialDelay delay) = (.error error, later) ∧
      deployment.Unaltered later := by
  have hanswer : (deployment.onScheduler (.schedule map initialDelay delay)).1 = .error error := by
    simp [onScheduler, SchedulerAct.answer, h]
  refine ⟨_, Prod.ext hanswer rfl, deployment.unaltered_onScheduler ?_ ?_⟩
  · simp [SchedulerAct.apply, h]
  · simp [SchedulerAct.events, h]

theorem onScheduler_schedule_of_none (h : deployment.scheduler.objection? = none)
    (initialDelay delay : Duration) :
    ∃ accepted later,
      deployment.onScheduler (.schedule map initialDelay delay) = (.ok accepted, later) := by
  have hanswer : (deployment.onScheduler (.schedule map initialDelay delay)).1 =
      .ok ⟨deployment.scheduler.jobs.length, deployment.scheduler.runsOnSchedule⟩ := by
    simp [onScheduler, SchedulerAct.answer, h]
  exact ⟨_, _, Prod.ext hanswer rfl⟩

section Acts

variable [DecidableEq K] {enumeration : Fin n → Enumeration K V}

theorem phase_borrowed :
    ((deployment.onMap enumeration map .borrow).2.state map).phase =
      (deployment.state map).phase := by
  rw [state_onMap, if_pos rfl, MapAct.apply]
  split <;> rfl

/-- A lifecycle call fails at once in any phase but the one that it needs. -/
theorem onMap_shift_of_ne (call : LifecycleCall) {source : Phase} (target : Phase)
    (h : (deployment.state map).phase ≠ source) :
    ∃ later, deployment.onMap enumeration map (.shift call source target) =
        (.error (.invalidState call (deployment.state map).phase), later) ∧
      deployment.Unaltered later := by
  have hshift : (deployment.state map).phase.shift call source target =
      (.error (.invalidState call (deployment.state map).phase), (deployment.state map).phase) :=
    if_neg h
  have hanswer : (deployment.onMap enumeration map (.shift call source target)).1 =
      .error (.invalidState call (deployment.state map).phase) := congrArg Prod.fst hshift
  have hlater := unaltered_onMap deployment map enumeration (.shift call source target)
  rw [MapAct.apply, hshift, setState_self] at hlater
  exact ⟨_, Prod.ext hanswer rfl, hlater⟩

/-- In the phase that it needs, a lifecycle call moves the map on. -/
theorem onMap_shift_of_eq (call : LifecycleCall) {source : Phase} (target : Phase)
    (h : (deployment.state map).phase = source) :
    ∃ later, deployment.onMap enumeration map (.shift call source target) = (.ok (), later) ∧
      (deployment.setState map { deployment.state map with phase := target }).Unaltered later := by
  have hshift : (deployment.state map).phase.shift call source target = (.ok (), target) := if_pos h
  have hanswer : (deployment.onMap enumeration map (.shift call source target)).1 = .ok () :=
    congrArg Prod.fst hshift
  have hlater := unaltered_onMap deployment map enumeration (.shift call source target)
  rw [MapAct.apply, hshift] at hlater
  exact ⟨_, Prod.ext hanswer rfl, hlater⟩

end Acts

/-! ## What starts and stops may come to -/

/-- Whether a start at a map is answered as it should be, and leaves what it should. -/
structure StartAnswered (earlier : Deployment n S K V) (map : Fin n) (status : Except Error Unit)
    (later : Deployment n S K V) : Prop where
  succeeds : status = .ok () ↔ (earlier.state map).phase = .stopped ∧
    earlier.scheduler.isShutdown = false ∧ earlier.scheduler.objection? = none
  misplaced : (earlier.state map).phase ≠ .stopped →
    status = .error (.invalidState .start (earlier.state map).phase)
  shutdown : (earlier.state map).phase = .stopped → earlier.scheduler.isShutdown = true →
    status = .error .schedulerShutdown
  /-- Another error is the scheduler's own. -/
  refused : ∀ error, (earlier.state map).phase = .stopped → earlier.scheduler.isShutdown = false →
    earlier.scheduler.objection? = some error → status = .error error
  unaltered : ∀ error, status = .error error → earlier.Unaltered later

theorem StartAnswered.of_phase (h : (earlier.state map).phase ≠ .stopped)
    (hlater : earlier.Unaltered later) :
    earlier.StartAnswered map (.error (.invalidState .start (earlier.state map).phase)) later where
  succeeds := iff_of_false nofun fun hall => h hall.1
  misplaced _ := rfl
  shutdown hstopped := absurd hstopped h
  refused _ hstopped := absurd hstopped h
  unaltered _ _ := hlater

theorem StartAnswered.of_shutdown (hphase : (earlier.state map).phase = .stopped)
    (h : earlier.scheduler.isShutdown = true) (hlater : earlier.Unaltered later) :
    earlier.StartAnswered map (.error .schedulerShutdown) later where
  succeeds := iff_of_false nofun fun hall => Bool.noConfusion (h.symm.trans hall.2.1)
  misplaced hne := absurd hphase hne
  shutdown _ _ := rfl
  refused _ _ hup := Bool.noConfusion (h.symm.trans hup)
  unaltered _ _ := hlater

theorem StartAnswered.of_refused {error : Error} (hphase : (earlier.state map).phase = .stopped)
    (hup : earlier.scheduler.isShutdown = false)
    (h : earlier.scheduler.objection? = some error) (hlater : earlier.Unaltered later) :
    earlier.StartAnswered map (.error error) later where
  succeeds := iff_of_false nofun fun hall => nomatch h.symm.trans hall.2.2
  misplaced hne := absurd hphase hne
  shutdown _ hdown := Bool.noConfusion (hup.symm.trans hdown)
  refused _ _ _ hother := congrArg Except.error (Option.some.inj (h.symm.trans hother))
  unaltered _ _ := hlater

theorem StartAnswered.of_accepted (hphase : (earlier.state map).phase = .stopped)
    (hup : earlier.scheduler.isShutdown = false) (h : earlier.scheduler.objection? = none) :
    earlier.StartAnswered map (.ok ()) later where
  succeeds := iff_of_true rfl ⟨hphase, hup, h⟩
  misplaced hne := absurd hphase hne
  shutdown _ hdown := Bool.noConfusion (hup.symm.trans hdown)
  refused _ _ _ hsome := nomatch h.symm.trans hsome
  unaltered _ := nofun

/-- Whether a map is stopped, empty and without a job. -/
structure AtRest (deployment : Deployment n S K V) (map : Fin n) : Prop where
  entries : (deployment.state map).store.entries = []
  phase : (deployment.state map).phase = .stopped
  job : (deployment.state map).job = none

/-- Whether a stop of a map is answered as it should be, and leaves what it should. -/
structure StopAnswered (earlier : Deployment n S K V) (map : Fin n) (status : Except Error Unit)
    (later : Deployment n S K V) : Prop where
  succeeds : status = .ok () ↔ (earlier.state map).phase = .started
  misplaced : (earlier.state map).phase ≠ .started →
    status = .error (.invalidState .stop (earlier.state map).phase)
  unaltered : ∀ error, status = .error error → earlier.Unaltered later
  atRest : status = .ok () → later.AtRest map

end Deployment

namespace Operation

open Deployment

variable [DecidableEq K] {plan : Plan n S K V} {consultation : Consultation n S K V}
  {deployment : Deployment n S K V} {map : Fin n}

/-! ## Starts -/

/-- A start that fails moves the map back to where it was. -/
theorem ends_abort {begun : Deployment n S K V} (hphase : (deployment.state map).phase = .stopped)
    (hbegun : (deployment.setState map
      { deployment.state map with phase := .starting }).Unaltered begun) (error : Error) :
    (do
      setPhase map .stopped
      return .error error : Operation n K V (Except Error Unit)).Ends (plan.respond consultation)
      (fun status _ later => status = .error error ∧ deployment.Unaltered later) begun := by
  have hback := hbegun.onMap plan.enumeration (.setPhase .stopped)
  have hstate : MapAct.apply { deployment.state map with phase := .starting }
      (.setPhase .stopped : MapAct K V) = deployment.state map := by
    rw [MapAct.apply, ← hphase]
  rw [hstate, setState_self] at hback
  exact (ends_onMap_bind rfl).mpr (ends_done.mpr ⟨rfl, hback⟩)

theorem start_answered (plan : Plan n S K V) (consultation : Consultation n S K V)
    (deployment : Deployment n S K V) (map : Fin n) (interval : Duration) :
    (start map interval).Ends (plan.respond consultation)
      (fun status _ later => deployment.StartAnswered map status later) deployment := by
  by_cases hphase : (deployment.state map).phase = .stopped
  case neg =>
    obtain ⟨later, heq, hlater⟩ := onMap_shift_of_ne .start .starting hphase
    exact (ends_onMap_bind heq).mpr (ends_done.mpr (.of_phase hphase hlater))
  case pos =>
  obtain ⟨begun, heq, hbegun⟩ := onMap_shift_of_eq .start .starting hphase
  refine (ends_onMap_bind heq).mpr ?_
  -- the scheduler is asked first whether it is shut down
  obtain ⟨asked, heq, hsame⟩ := begun.onScheduler_isShutdown
  have hasked := hbegun.trans hsame
  refine (ends_onScheduler_bind heq).mpr ?_
  have hscheduler : begun.scheduler = deployment.scheduler := hbegun.scheduler
  rw [hscheduler]
  cases hshut : deployment.scheduler.isShutdown with
  | true =>
      refine (ends_abort hphase hasked _).mono fun status _ later hlater => ?_
      exact hlater.1 ▸ .of_shutdown hphase hshut hlater.2
  | false =>
  have hscheduler : asked.scheduler = deployment.scheduler := hasked.scheduler
  cases hobjection : deployment.scheduler.objection? with
  | some error =>
      rw [← hscheduler] at hobjection
      obtain ⟨refused, heq, hsame⟩ := onScheduler_schedule_of_some hobjection .zero interval
      refine (ends_onScheduler_bind heq).mpr ?_
      refine (ends_abort hphase (hasked.trans hsame) _).mono fun status _ later hlater => ?_
      rw [hscheduler] at hobjection
      exact hlater.1 ▸ .of_refused hphase hshut hobjection hlater.2
  | none =>
      have hstarted : ∀ later, deployment.StartAnswered map (.ok ()) later := fun later =>
        .of_accepted hphase hshut hobjection
      rw [← hscheduler] at hobjection
      obtain ⟨accepted, scheduled, heq⟩ := onScheduler_schedule_of_none hobjection .zero interval
      refine (ends_onScheduler_bind heq).mpr ?_
      obtain ⟨id, runsAtOnce⟩ := accepted
      cases runsAtOnce with
      | false => exact hstarted _
      | true => exact ends_bind.mpr (hstarted _)

/-! ## Stops -/

/-- The end of a stop leaves nothing behind. -/
theorem ends_finish {closing : Deployment n S K V} (h : closing.Closing map) :
    (do
      guarded map (clear map)
      setPhase map .stopped
      return .ok () : Operation n K V (Except Error Unit)).Ends (plan.respond consultation)
      (fun status _ later => status = .ok () ∧ later.AtRest map) closing := by
  have hlater := (((unaltered_onMap closing map plan.enumeration .lock).onMap
    plan.enumeration .clear).onMap plan.enumeration .unlock).onMap plan.enumeration
      (.setPhase .stopped)
  have hstate := hlater.state map
  rw [state_setState, if_pos rfl] at hstate
  have hentries := congrArg (fun state => state.store.entries) hstate
  have hjob := congrArg MapState.job hstate
  exact ⟨rfl, hentries, congrArg MapState.phase hstate, hjob.trans h.job⟩

theorem stop_answered
    (hconsult : ∀ other hook, Keeps (StaysClosing map) (plan.consult consultation other hook))
    (deployment : Deployment n S K V) :
    (stop map).Ends (plan.respond consultation)
      (fun status _ later => deployment.StopAnswered map status later) deployment := by
  by_cases hphase : (deployment.state map).phase = .started
  case neg =>
    obtain ⟨later, heq, hlater⟩ := onMap_shift_of_ne .stop .stopping hphase
    refine (ends_onMap_bind heq).mpr (ends_done.mpr ?_)
    exact ⟨iff_of_false nofun hphase, fun _ => rfl, fun _ _ => hlater, nofun⟩
  case pos =>
  obtain ⟨begun, heq, hbegun⟩ := onMap_shift_of_eq .stop .stopping hphase
  refine (ends_onMap_bind heq).mpr ?_
  have hstopped : ∀ later, later.AtRest map → deployment.StopAnswered map (.ok ()) later :=
    fun later hrest => ⟨iff_of_true rfl hphase, fun h => absurd hphase h, nofun, fun _ => hrest⟩
  have hfinish : ∀ closing : Deployment n S K V, closing.Closing map → (do
      guarded map (clear map)
      setPhase map .stopped
      return .ok () : Operation n K V (Except Error Unit)).Ends (plan.respond consultation)
        (fun status _ later => deployment.StopAnswered map status later) closing :=
    fun closing h => (ends_finish h).mono fun status _ later hlater =>
      hlater.1 ▸ hstopped later hlater.2
  have hstopping : (begun.state map).phase = .stopping := by
    rw [hbegun.state, state_setState, if_pos rfl]
  -- the job has been taken, so the map is closing with an empty slot
  have htaken : (begun.onMap plan.enumeration map .takeJob).2.Closing map := by
    constructor
    case phase => rw [state_onMap, if_pos rfl]; exact hstopping
    case job => rw [state_onMap, if_pos rfl]; rfl
  rcases heq : begun.onMap plan.enumeration map .takeJob with ⟨job, taken⟩
  rw [heq] at htaken
  refine (ends_onMap_bind heq).mpr ?_
  cases job with
  | none => exact hfinish taken htaken
  | some id =>
      -- runs that are made on cancelling keep the map closing, so the rest can be done after them
      have hruns := (abides_staysClosing hconsult).runs
      have hcancel := hruns.cancel hruns.retire map id taken
      exact ends_bind.mpr (hfinish _ (hcancel.1 htaken))

/-! ## Calls through a handle -/

/-- A call that is made through a handle holds the map while it lasts. -/
theorem ends_served (hhandle : (deployment.state map).hasHandle = true)
    (settings : Settings n S K V) {asked : MapRequest K V}
    {post : Outcome (Answer V) → Deployment n S K V → Prop}
    (h : (serveMap settings map asked).Ends (plan.respond consultation)
      (fun outcome _ between => (release retire map).Ends (plan.respond consultation)
        (fun _ _ later => post outcome later) between)
      (deployment.onMap plan.enumeration map .borrow).2) :
    (serve settings map (.map asked)).Ends (plan.respond consultation)
      (fun outcome _ later => post outcome later) deployment := by
  have hborrow : deployment.onMap plan.enumeration map .borrow = (true, _) := Prod.ext hhandle rfl
  refine ends_bind.mpr ((ends_onMap_bind hborrow).mpr (ends_bind.mpr ?_))
  refine h.mono fun outcome _ between hbetween => ends_bind.mpr ?_
  exact hbetween.mono fun _ _ later hlater => hlater

/-- At a map that has a handle a call that alters nothing leaves everything as it was. -/
theorem ends_release_unaltered {retirement : Retirement n K V}
    (hhandle : (deployment.state map).hasHandle = true) {between : Deployment n S K V}
    (h : (deployment.onMap plan.enumeration map .borrow).2.Unaltered between) :
    (release retirement map).Ends (plan.respond consultation)
      (fun _ _ later => deployment.Unaltered later) between := by
  have hborrowed : (MapAct.borrow : MapAct K V).apply (deployment.state map) =
      { deployment.state map with uses := (deployment.state map).uses + 1 } := if_pos hhandle
  -- between the borrowing and now nothing has changed but that use
  have hbetween := (deployment.unaltered_onMap map plan.enumeration .borrow).trans h
  rw [hborrowed] at hbetween
  have hstate := hbetween.state map
  rw [state_setState, if_pos rfl] at hstate
  have hhandles : 0 < (deployment.state map).handles := of_decide_eq_true hhandle
  have hkept : (between.onMap plan.enumeration map .letGo).1 = false := by
    rw [fst_onMap, hstate]
    exact decide_eq_false (by simp only; omega)
  have hlater := hbetween.onMap plan.enumeration .letGo
  have hback : (MapAct.letGo : MapAct K V).apply
      { deployment.state map with uses := (deployment.state map).uses + 1 } =
        deployment.state map := rfl
  rw [hback, setState_self] at hlater
  exact (ends_onMap_bind (Prod.ext hkept rfl)).mpr (ends_done.mpr hlater)

/-- A map that is at rest stays so when the last hold on it is given up. -/
theorem ends_release_atRest {between : Deployment n S K V} (h : between.AtRest map) :
    (release retire map).Ends (plan.respond consultation)
      (fun _ _ later => later.AtRest map) between := by
  rcases heq : between.onMap plan.enumeration map .letGo with ⟨last, later⟩
  have hstate : later.state map =
      { between.state map with uses := (between.state map).uses - 1 } := by
    have hlater := between.state_onMap plan.enumeration map map .letGo
    rwa [heq, if_pos rfl] at hlater
  have hlater : later.AtRest map := by
    constructor <;> rw [hstate]
    exacts [h.entries, h.phase, h.job]
  refine (ends_onMap_bind heq).mpr ?_
  cases last with
  | false => exact ends_done.mpr hlater
  -- with the last hold gone the slot is looked at, which is empty already
  | true =>
      have hnone : (later.onMap plan.enumeration map .takeJob).1 = none := hlater.job
      refine (ends_onMap_bind (Prod.ext hnone rfl)).mpr (ends_done.mpr ?_)
      constructor <;> rw [state_onMap, if_pos rfl]
      exacts [hlater.entries, hlater.phase, rfl]

theorem ends_serve_start (hhandle : (deployment.state map).hasHandle = true)
    (settings : Settings n S K V) :
    (serve settings map (.map .start)).Ends (plan.respond consultation) (fun outcome _ later =>
      ∃ status, outcome = .ok (.status status) ∧ deployment.StartAnswered map status later)
      deployment := by
  refine ends_served hhandle settings (ends_bind.mpr ?_)
  refine (start_answered plan consultation _ map settings.interval).mono
    fun status _ between h => ends_done.mpr ?_
  -- what goes before the release decides what is answered, but not what is altered
  have hsame : ∀ later, (∀ error, status = .error error → deployment.Unaltered later) →
      deployment.StartAnswered map status later := fun later hlater => by
    obtain ⟨hsucceeds, hmisplaced, hshutdown, hrefused, -⟩ := h
    simp only [phase_borrowed] at hsucceeds hmisplaced hshutdown hrefused
    exact ⟨hsucceeds, hmisplaced, hshutdown, hrefused, hlater⟩
  cases status with
  | ok _ => exact ⟨_, rfl, hsame _ nofun⟩
  | error error =>
      refine (ends_release_unaltered hhandle (h.unaltered error rfl)).mono
        fun _ _ later hlater => ?_
      exact ⟨_, rfl, hsame later fun _ _ => hlater⟩

theorem ends_serve_stop
    (hconsult : ∀ other hook, Keeps (StaysClosing map) (plan.consult consultation other hook))
    (hhandle : (deployment.state map).hasHandle = true) (settings : Settings n S K V) :
    (serve settings map (.map .stop)).Ends (plan.respond consultation) (fun outcome _ later =>
      ∃ status, outcome = .ok (.status status) ∧ deployment.StopAnswered map status later)
      deployment := by
  refine ends_served hhandle settings (ends_bind.mpr ?_)
  refine (stop_answered hconsult _).mono fun status _ between h => ends_done.mpr ?_
  -- what goes before the release decides what is answered
  have hsame : ∀ later, (∀ error, status = .error error → deployment.Unaltered later) →
      (status = .ok () → later.AtRest map) → deployment.StopAnswered map status later :=
    fun later hlater hrest => by
      obtain ⟨hsucceeds, hmisplaced, -, -⟩ := h
      simp only [phase_borrowed] at hsucceeds hmisplaced
      exact ⟨hsucceeds, hmisplaced, hlater, hrest⟩
  cases status with
  | ok _ =>
      refine (ends_release_atRest (h.atRest rfl)).mono fun _ _ later hlater => ?_
      exact ⟨_, rfl, hsame later nofun fun _ => hlater⟩
  | error error =>
      refine (ends_release_unaltered hhandle (h.unaltered error rfl)).mono
        fun _ _ later hlater => ?_
      exact ⟨_, rfl, hsame later (fun _ _ => hlater) nofun⟩

end Operation

section Calls

variable [DecidableEq K] (plan : Plan n S K V) (depth : Nat) (standing : Fin n) (path : Path n)
  (deployment : Deployment n S K V)

/-- Whenever somebody asks a map to start or to stop, be it from outside or in the script of a hook:
the call gets through exactly if the phase of the map and the scheduler allow it, and if it does
not, the error tells why and nothing has been altered.  A stop that gets through leaves the map
empty, stopped and without a job. -/
theorem lifecycle_calls_answered
    (hhandle : (deployment.state (path.last standing)).hasHandle = true) :
    let serve (request : MapRequest K V) :=
      plan.serve (plan.consultation depth) standing (.ask path (.map request)) deployment
    (∃ status, (serve .start).1 = .ok (.status status) ∧
        deployment.StartAnswered (path.last standing) status (serve .start).2) ∧
      ∃ status, (serve .stop).1 = .ok (.status status) ∧
        deployment.StopAnswered (path.last standing) status (serve .stop).2 := by
  have hlasting := lasting_staysClosing plan (path.last standing)
  have hconsult := hlasting.consult (hlasting.keeps_consultation depth)
  exact ⟨Operation.ends_serve_start hhandle _, Operation.ends_serve_stop hconsult hhandle _⟩

end Calls

/-- One map whose eviction hook asks it to start and to stop. -/
def meddling : Plan 1 Unit Nat Nat where
  settings _ :=
    { policy := .listener fun _ memory =>
        (memory, .ofCalls (.ok true) [.ask [] (.map .start), .ask [] (.map .stop)]) }
  enumeration _ := .asStored

/-- What hooks have been told of their lifecycle calls, the last one first. -/
def Deployment.statuses (deployment : Deployment n S K V) : List (Except Error Unit) :=
  deployment.journal.filterMap fun
    | .acted _ _ (.status status) => some status
    | _ => none

/-- The start of that map makes a run at once, whose hook is refused both calls.  A stop gets
through afterwards. -/
theorem lifecycle_calls_answered_meddling :
    let waiting := (meddling.serveCalls (meddling.consultation 0) 0
      [.ask [] (.map (.put 7 70 .zero)), .ask [] (.advance 1)]
      (.fresh (.byHand true true) false ())).2
    let started := (meddling.serve (meddling.consultation 1) 0 (.ask [] (.map .start)) waiting).2
    let stopped := (meddling.serve (meddling.consultation 1) 0 (.ask [] (.map .stop)) started).2
    waiting.StartAnswered 0 (.ok ()) started ∧
      started.statuses = [.error (.invalidState .stop .starting),
        .error (.invalidState .start .starting)] ∧
      started.StopAnswered 0 (.ok ()) stopped := by
  intro waiting started stopped
  have hwaiting : (waiting.state 0).hasHandle = true ∧ (waiting.state 0).phase = .stopped ∧
      waiting.scheduler.isShutdown = false ∧ waiting.scheduler.objection? = none := by
    decide +kernel
  -- the hooks have made their calls while the map was starting, and were told so
  have hrunning : (started.state 0).hasHandle = true ∧ (started.state 0).phase = .started ∧
      started.statuses = [.error (.invalidState .stop .starting),
        .error (.invalidState .start .starting)] := by
    decide +kernel
  obtain ⟨status, -, hstarted⟩ := (lifecycle_calls_answered meddling 1 0 [] waiting hwaiting.1).1
  obtain ⟨status', -, hstopped⟩ := (lifecycle_calls_answered meddling 1 0 [] started hrunning.1).2
  obtain rfl := hstarted.succeeds.mpr hwaiting.2
  obtain rfl := hstopped.succeeds.mpr hrunning.2.1
  exact ⟨hstarted, hrunning.2.2, hstopped⟩

end ExpiringMap
