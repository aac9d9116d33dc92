import ExpiringMap.Proofs.Acts
import Mathlib.Logic.Function.Basic

/-!
# The affairs of maps

What becomes of jobs depends on little of a deployment: on the phase of each map, on the job that it
keeps and on who holds it; on which jobs the scheduler has and whose they are; and on who has
cancelled which of them.  These are the affairs of the maps.  An act on a map changes the affair of
that map alone (`affairs_onMap`), a task that is accepted adds a job, a cancellation is put down
beside what was cancelled before, and nothing else that happens is a matter of these affairs.
-/

namespace ExpiringMap

variable {n : Nat} {S K V : Type}

/-! ## Who has scheduled and cancelled what -/

/-- The job that a map has scheduled in an event. -/
def Event.jobOf? (map : Fin n) : Event n K V → Option Nat
  | .ofScheduler (.scheduled owner id ..) => if owner = map then some id else none
  | _ => none

/-- The map that has cancelled a job in an event. -/
def Event.cancellerOf? (id : Nat) : Event n K V → Option (Fin n)
  | .ofScheduler (.cancelled map other) => if other = id then some map else none
  | _ => none

/-- Whether a job is scheduled or cancelled in an event. -/
def Event.IsOfJob : Event n K V → Prop
  | .ofScheduler (.scheduled ..) | .ofScheduler (.cancelled ..) => True
  | _ => False

namespace Deployment

/-- The jobs that a map has ever scheduled, the latest first. -/
def jobsOf (deployment : Deployment n S K V) (map : Fin n) : List Nat :=
  deployment.journal.filterMap (Event.jobOf? map)

/-- The maps that have cancelled a job, once for each time. -/
def cancellersOf (deployment : Deployment n S K V) (id : Nat) : List (Fin n) :=
  deployment.journal.filterMap (Event.cancellerOf? id)

end Deployment

/-! ## Affairs -/

/-- The affair of one map. -/
structure Affair where
  phase : Phase
  job : Option Nat
  handles : Nat
  uses : Nat
  /-- The jobs that the map has scheduled, the latest first. -/
  jobs : List Nat

/-- The affairs of `n` maps that share a scheduler. -/
@[ext]
structure Affairs (n : Nat) where
  of : Fin n → Affair
  /-- Whose the jobs of the scheduler are, in the order of their ids. -/
  owners : List (Fin n)
  /-- Which jobs the scheduler has down as cancelled. -/
  isCancelled : Nat → Bool
  /-- The maps that have cancelled a job, once for each time. -/
  cancellers : Nat → List (Fin n)

namespace Affair

def IsHeld (affair : Affair) : Prop := 0 < affair.handles + affair.uses

instance (affair : Affair) : Decidable affair.IsHeld := inferInstanceAs (Decidable (0 < _))

def enter (phase : Phase) (affair : Affair) : Affair := { affair with phase }

def keepJob (id : Nat) (affair : Affair) : Affair := { affair with job := some id }

def dropJob (affair : Affair) : Affair := { affair with job := none }

def addHandle (affair : Affair) : Affair := { affair with handles := affair.handles + 1 }

/-- A use of the map begins. -/
def use (affair : Affair) : Affair := { affair with uses := affair.uses + 1 }

/-- A use of the map ends. -/
def letGo (affair : Affair) : Affair := { affair with uses := affair.uses - 1 }

/-- The last handle of the map is turned into a use. -/
def takeHandle (affair : Affair) : Affair :=
  { affair with handles := affair.handles - 1, uses := affair.uses + 1 }

/-- Whether a map that is held has been taken into use. -/
structure Used (affair later : Affair) : Prop where
  held : affair.IsHeld
  phase : later.phase = affair.phase
  job : later.job = affair.job
  jobs : later.jobs = affair.jobs
  uses : later.uses = affair.uses + 1

theorem isHeld_of_uses {affair : Affair} (h : 0 < affair.uses) : affair.IsHeld :=
  Nat.add_pos_right affair.handles h

theorem used_use {affair : Affair} (h : affair.IsHeld) : affair.Used affair.use :=
  ⟨h, rfl, rfl, rfl, rfl⟩

theorem used_takeHandle {affair : Affair} (h : affair.IsHeld) : affair.Used affair.takeHandle :=
  ⟨h, rfl, rfl, rfl, rfl⟩

end Affair

namespace Affairs

/-- Something is done in the affair of a map. -/
def change (affairs : Affairs n) (map : Fin n) (act : Affair → Affair) : Affairs n :=
  { affairs with of := Function.update affairs.of map (act (affairs.of map)) }

/-- A job of a map is added to those of the scheduler. -/
def schedule (affairs : Affairs n) (map : Fin n) : Affairs n :=
  let add (affair : Affair) : Affair := { affair with jobs := affairs.owners.length :: affair.jobs }
  { affairs.change map add with owners := affairs.owners ++ [map] }

def cancel (affairs : Affairs n) (map : Fin n) (id : Nat) : Affairs n :=
  { affairs with
    isCancelled := Function.update affairs.isCancelled id true
    cancellers := Function.update affairs.cancellers id (map :: affairs.cancellers id) }

@[simp] theorem of_change (affairs : Affairs n) (map other : Fin n) (act : Affair → Affair) :
    (affairs.change map act).of other =
      if other = map then act (affairs.of map) else affairs.of other :=
  Function.update_apply ..

@[simp] theorem owners_change (affairs : Affairs n) (map : Fin n) (act : Affair → Affair) :
    (affairs.change map act).owners = affairs.owners := rfl

@[simp] theorem isCancelled_change (affairs : Affairs n) (map : Fin n) (act : Affair → Affair) :
    (affairs.change map act).isCancelled = affairs.isCancelled := rfl

@[simp] theorem cancellers_change (affairs : Affairs n) (map : Fin n) (act : Affair → Affair) :
    (affairs.change map act).cancellers = affairs.cancellers := rfl

theorem change_eq_self {affairs : Affairs n} {map : Fin n} {act : Affair → Affair}
    (h : act (affairs.of map) = affairs.of map) : affairs.change map act = affairs := by
  simp only [change, h, Function.update_eq_self]

theorem change_change (affairs : Affairs n) (map : Fin n) (first second : Affair → Affair) :
    (affairs.change map first).change map second =
      affairs.change map fun affair => second (first affair) := by
  simp [change]

@[simp] theorem of_schedule (affairs : Affairs n) (map other : Fin n) :
    (affairs.schedule map).of other =
      if other = map then
        { affairs.of map with jobs := affairs.owners.length :: (affairs.of map).jobs }
      else affairs.of other :=
  Function.update_apply ..

@[simp] theorem owners_schedule (affairs : Affairs n) (map : Fin n) :
    (affairs.schedule map).owners = affairs.owners ++ [map] := rfl

@[simp] theorem isCancelled_schedule (affairs : Affairs n) (map : Fin n) :
    (affairs.schedule map).isCancelled = affairs.isCancelled := rfl

@[simp] theorem cancellers_schedule (affairs : Affairs n) (map : Fin n) :
    (affairs.schedule map).cancellers = affairs.cancellers := rfl

@[simp] theorem of_cancel (affairs : Affairs n) (map : Fin n) (id : Nat) :
    (affairs.cancel map id).of = affairs.of := rfl

@[simp] theorem owners_cancel (affairs : Affairs n) (map : Fin n) (id : Nat) :
    (affairs.cancel map id).owners = affairs.owners := rfl

@[simp] theorem isCancelled_cancel (affairs : Affairs n) (map : Fin n) (id other : Nat) :
    (affairs.cancel map id).isCancelled other =
      if other = id then true else affairs.isCancelled other :=
  Function.update_apply ..

@[simp] theorem cancellers_cancel (affairs : Affairs n) (map : Fin n) (id other : Nat) :
    (affairs.cancel map id).cancellers other =
      if other = id then map :: affairs.cancellers id else affairs.cancellers other :=
  Function.update_apply ..

end Affairs

/-! ## The affairs of a deployment -/

/-- The affair of a map that has scheduled these jobs. -/
def MapState.affair (state : MapState K V) (jobs : List Nat) : Affair where
  phase := state.phase
  job := state.job
  handles := state.handles
  uses := state.uses
  jobs

/-- What an act on a map does in its affair. -/
def MapAct.onAffair (act : MapAct K V) (affair : Affair) : Affair :=
  match act with
  | setPhase phase => affair.enter phase
  | shift _ source target => if affair.phase = source then affair.enter target else affair
  | keepJob id => affair.keepJob id
  | takeJob => affair.dropJob
  | borrow => if 0 < affair.handles then affair.use else affair
  | hold => if affair.IsHeld then affair.use else affair
  | letGo => affair.letGo
  | addHandle => affair.addHandle
  | takeHandle => if 0 < affair.handles then affair.takeHandle else affair
  | _ => affair

theorem MapState.affair_apply [DecidableEq K] (state : MapState K V) (act : MapAct K V)
    (jobs : List Nat) : (act.apply state).affair jobs = act.onAffair (state.affair jobs) := by
  cases act with
  | shift call source target =>
      -- the phase changes only if it is the one that was expected
      by_cases h : state.phase = source <;>
        simp [MapAct.apply, MapAct.onAffair, Phase.shift, affair, Affair.enter, h]
  | borrow | takeHandle =>
      by_cases h : 0 < state.handles <;>
        simp [MapAct.apply, MapAct.onAffair, hasHandle, affair, Affair.use, Affair.takeHandle, h]
  | hold =>
      by_cases h : 0 < state.handles + state.uses <;>
        simp [MapAct.apply, MapAct.onAffair, isHeld, affair, Affair.IsHeld, Affair.use, h]
  | lock | unlock | reserve | read | insert | insertIfAbsent | remove | removeIfSame | scan | size
  | clear | readPhase | setPhase | keepJob | takeJob | letGo | addHandle => rfl

/-- What a change of a job leaves as it is can be read off the jobs as before. -/
theorem Scheduler.map_modifyJob {α : Type} (scheduler : Scheduler n) (id : Nat)
    {change : Job n → Job n} {view : Job n → α} (hsame : ∀ job, view (change job) = view job) :
    (scheduler.modifyJob id change).jobs.map view = scheduler.jobs.map view := by
  refine List.ext_getElem? fun place => ?_
  simp only [modifyJob, List.getElem?_map, List.getElem?_modify]
  cases scheduler.jobs[place]? with
  | none => rfl
  | some job => by_cases h : id = place <;> simp [h, hsame]

/-- Whether an act on the scheduler neither schedules nor cancels a job. -/
def SchedulerAct.LeavesJobs : SchedulerAct n → Prop
  | schedule .. | cancel .. => False
  | _ => True

namespace Deployment

/-- The affairs of the maps of a deployment. -/
def affairs (deployment : Deployment n S K V) : Affairs n where
  of map := (deployment.state map).affair (deployment.jobsOf map)
  owners := deployment.scheduler.jobs.map Job.owner
  isCancelled id := (deployment.scheduler.jobs.map Job.cancelled)[id]?.getD false
  cancellers := deployment.cancellersOf

/-- Whether each job of one scheduler has the owner that it has in another one, and is cancelled if
it is there. -/
def SameJobs (earlier later : Scheduler n) : Prop :=
  later.jobs.map (fun job => (job.owner, job.cancelled)) =
    earlier.jobs.map fun job => (job.owner, job.cancelled)

theorem SameJobs.refl (scheduler : Scheduler n) : SameJobs scheduler scheduler := rfl

theorem sameJobs_modifyJob (scheduler : Scheduler n) (id : Nat) {change : Job n → Job n}
    (hsame : ∀ job, ((change job).owner, (change job).cancelled) = (job.owner, job.cancelled)) :
    SameJobs scheduler (scheduler.modifyJob id change) :=
  scheduler.map_modifyJob id hsame

variable {earlier later : Deployment n S K V} {events : List (Event n K V)}

/-- What is no matter of the jobs changes no affairs but those of the maps themselves. -/
theorem affairs_eq_of (hjobs : SameJobs earlier.scheduler later.scheduler)
    (hjournal : later.journal = events.reverse ++ earlier.journal)
    (hevents : ∀ event ∈ events, ¬ event.IsOfJob) :
    later.affairs =
      { earlier.affairs with
        of := fun map => (later.state map).affair (earlier.jobsOf map) } := by
  -- the scheduler has the same jobs, so neither owners nor marks are different
  have howners : later.scheduler.jobs.map Job.owner = earlier.scheduler.jobs.map Job.owner := by
    simpa [Function.comp_def] using congrArg (List.map Prod.fst) hjobs
  have hcancelled : later.scheduler.jobs.map Job.cancelled =
      earlier.scheduler.jobs.map Job.cancelled := by
    simpa [Function.comp_def] using congrArg (List.map Prod.snd) hjobs
  -- nothing in the journal since then tells of a job
  have hjobsOf : ∀ map, later.jobsOf map = earlier.jobsOf map := fun map => by
    rw [jobsOf, hjournal, List.filterMap_append, List.filterMap_eq_nil_iff.mpr, List.nil_append,
      jobsOf]
    intro event hevent
    have hnone := hevents event (List.mem_reverse.mp hevent)
    unfold Event.jobOf?
    split
    · exact (hnone trivial).elim
    · rfl
  have hcancellersOf : ∀ id, later.cancellersOf id = earlier.cancellersOf id := fun id => by
    rw [cancellersOf, hjournal, List.filterMap_append, List.filterMap_eq_nil_iff.mpr,
      List.nil_append, cancellersOf]
    intro event hevent
    have hnone := hevents event (List.mem_reverse.mp hevent)
    unfold Event.cancellerOf?
    split
    · exact (hnone trivial).elim
    · rfl
  simp only [affairs, howners, hcancelled, hjobsOf, funext hcancellersOf]

theorem affairs_eq (hstate : ∀ map, later.state map = earlier.state map)
    (hjobs : SameJobs earlier.scheduler later.scheduler)
    (hjournal : later.journal = events.reverse ++ earlier.journal)
    (hevents : ∀ event ∈ events, ¬ event.IsOfJob) : later.affairs = earlier.affairs := by
  rw [affairs_eq_of hjobs hjournal hevents]
  simp only [hstate, affairs]

/-! ## What happens around the calls of hooks -/

@[simp] theorem affairs_enter (deployment : Deployment n S K V) (plan : Plan n S K V) (map : Fin n)
    (hook : Hook K V) : (plan.enter deployment map hook).2.affairs = deployment.affairs := by
  unfold Plan.enter
  split
  · rfl
  · exact affairs_eq (fun _ => rfl) (.refl _) rfl (by simp [Event.IsOfJob])

@[simp] theorem affairs_resume (deployment : Deployment n S K V) (map : Fin n) (call : Call n K V)
    (outcome : Outcome (Answer V)) (remember : S → S) :
    (deployment.resume map call outcome remember).2.affairs = deployment.affairs := by
  refine affairs_eq (fun _ => rfl) (.refl _) rfl ?_
  cases outcome <;> simp [Event.ofAction, Event.IsOfJob]

@[simp] theorem affairs_leave (deployment : Deployment n S K V) (map : Fin n) (hook : Hook K V)
    (verdict : Outcome Bool) : (deployment.leave map hook verdict).affairs = deployment.affairs :=
  affairs_eq (fun _ => rfl) (.refl _) rfl (by simp [Event.IsOfJob])

@[simp] theorem affairs_gathered (deployment : Deployment n S K V) :
    (deployment.note [.gathered]).affairs = deployment.affairs :=
  affairs_eq (fun _ => rfl) (.refl _) rfl (by simp [Event.IsOfJob])

/-! ## Acts -/

@[simp] theorem affairs_onClock (deployment : Deployment n S K V) (act : ClockAct) :
    (deployment.onClock act).2.affairs = deployment.affairs := by
  refine affairs_eq (fun _ => rfl) (.refl _) rfl ?_
  split <;> simp [Event.IsOfJob]

@[simp] theorem affairs_elapse (deployment : Deployment n S K V) (ns : Nat) :
    (deployment.elapse ns).affairs = deployment.affairs := by
  refine affairs_eq (fun _ => rfl) (.refl _) rfl ?_
  split <;> simp [Event.IsOfJob]

@[simp] theorem affairs_logged (deployment : Deployment n S K V) (map : Fin n)
    (record : LogRecord) : (deployment.note [.logged map record]).affairs = deployment.affairs :=
  affairs_eq (fun _ => rfl) (.refl _) rfl (by simp [Event.IsOfJob])

@[simp] theorem affairs_onMap [DecidableEq K] (enumeration : Fin n → Enumeration K V)
    (deployment : Deployment n S K V) (map : Fin n) (act : MapAct K V) :
    (deployment.onMap enumeration map act).2.affairs =
      deployment.affairs.change map act.onAffair := by
  have heq : (deployment.onMap enumeration map act).2.affairs = { deployment.affairs with
      of := fun other => ((deployment.onMap enumeration map act).2.state other).affair
        (deployment.jobsOf other) } :=
    affairs_eq_of (.refl _) (deployment.journal_onMap enumeration map act)
      (by simp [Event.IsOfJob])
  rw [heq]
  refine Affairs.ext (funext fun other => ?_) rfl rfl rfl
  show ((deployment.onMap enumeration map act).2.state other).affair (deployment.jobsOf other) = _
  rw [Affairs.of_change, state_onMap]
  split
  · next h =>
    subst h
    exact MapState.affair_apply ..
  · rfl

section OnMap

variable [DecidableEq K] (enumeration : Fin n → Enumeration K V) (deployment : Deployment n S K V)
  (map : Fin n)

theorem exists_onMap (act : MapAct K V) :
    ∃ answer later, deployment.onMap enumeration map act = (answer, later) ∧
      later.affairs = deployment.affairs.change map act.onAffair :=
  ⟨_, _, rfl, deployment.affairs_onMap enumeration map act⟩

theorem onMap_cases_hold :
    (∃ later, deployment.onMap enumeration map .hold = (true, later) ∧
      (deployment.affairs.of map).IsHeld ∧
        later.affairs = deployment.affairs.change map Affair.use) ∨
    ∃ later, deployment.onMap enumeration map .hold = (false, later) ∧
      ¬ (deployment.affairs.of map).IsHeld ∧ later.affairs = deployment.affairs := by
  have haffairs := deployment.affairs_onMap enumeration map .hold
  by_cases hheld : (deployment.affairs.of map).IsHeld
  · refine .inl ⟨_, Prod.ext (decide_eq_true hheld) rfl, hheld, haffairs.trans ?_⟩
    simp only [Affairs.change, MapAct.onAffair, if_pos hheld]
  · refine .inr ⟨_, Prod.ext (decide_eq_false hheld) rfl, hheld, haffairs.trans ?_⟩
    exact Affairs.change_eq_self (if_neg hheld)

theorem onMap_cases_borrow :
    (∃ later, deployment.onMap enumeration map .borrow = (true, later) ∧
      (deployment.affairs.of map).IsHeld ∧
        later.affairs = deployment.affairs.change map Affair.use) ∨
    ∃ later, deployment.onMap enumeration map .borrow = (false, later) ∧
      later.affairs = deployment.affairs := by
  have haffairs := deployment.affairs_onMap enumeration map .borrow
  by_cases hhandle : 0 < (deployment.affairs.of map).handles
  · have hheld : (deployment.affairs.of map).IsHeld := Nat.add_pos_left hhandle _
    refine .inl ⟨_, Prod.ext (decide_eq_true hhandle) rfl, hheld, haffairs.trans ?_⟩
    simp only [Affairs.change, MapAct.onAffair, if_pos hhandle]
  · refine .inr ⟨_, Prod.ext (decide_eq_false hhandle) rfl, haffairs.trans ?_⟩
    exact Affairs.change_eq_self (if_neg hhandle)

theorem onMap_cases_takeHandle :
    (∃ later, deployment.onMap enumeration map .takeHandle = (true, later) ∧
      (deployment.affairs.of map).IsHeld ∧
        later.affairs = deployment.affairs.change map Affair.takeHandle) ∨
    ∃ later, deployment.onMap enumeration map .takeHandle = (false, later) ∧
      later.affairs = deployment.affairs := by
  have haffairs := deployment.affairs_onMap enumeration map .takeHandle
  by_cases hhandle : 0 < (deployment.affairs.of map).handles
  · have hheld : (deployment.affairs.of map).IsHeld := Nat.add_pos_left hhandle _
    refine .inl ⟨_, Prod.ext (decide_eq_true hhandle) rfl, hheld, haffairs.trans ?_⟩
    simp only [Affairs.change, MapAct.onAffair, if_pos hhandle]
  · refine .inr ⟨_, Prod.ext (decide_eq_false hhandle) rfl, haffairs.trans ?_⟩
    exact Affairs.change_eq_self (if_neg hhandle)

/-- Whether a use was the last hold on a map is what the one who gives it up is told. -/
theorem onMap_letGo :
    ∃ last later, deployment.onMap enumeration map .letGo = (last, later) ∧
      (last = true ↔ ¬ (deployment.affairs.of map).letGo.IsHeld) ∧
        later.affairs = deployment.affairs.change map Affair.letGo := by
  refine ⟨_, _, rfl, ?_, deployment.affairs_onMap enumeration map .letGo⟩
  refine (decide_eq_true_iff (p := (deployment.affairs.of map).handles +
    ((deployment.affairs.of map).uses - 1) = 0)).trans ?_
  rw [Affair.IsHeld, Nat.pos_iff_ne_zero, not_not]
  rfl

theorem onMap_takeJob :
    ∃ later, deployment.onMap enumeration map .takeJob = ((deployment.affairs.of map).job, later) ∧
      later.affairs = deployment.affairs.change map Affair.dropJob :=
  ⟨_, rfl, deployment.affairs_onMap enumeration map .takeJob⟩

theorem onMap_cases_shift (call : LifecycleCall) (source target : Phase) :
    (∃ error later, deployment.onMap enumeration map (.shift call source target) =
      (.error error, later) ∧ later.affairs = deployment.affairs) ∨
    ∃ later, deployment.onMap enumeration map (.shift call source target) = (.ok (), later) ∧
      (deployment.affairs.of map).phase = source ∧
        later.affairs = deployment.affairs.change map (Affair.enter target) := by
  have haffairs := deployment.affairs_onMap enumeration map (.shift call source target)
  have hanswer : (deployment.onMap enumeration map (.shift call source target)).1 =
      ((deployment.affairs.of map).phase.shift call source target).1 := rfl
  by_cases hphase : (deployment.affairs.of map).phase = source
  · rw [Phase.shift, if_pos hphase] at hanswer
    refine .inr ⟨_, Prod.ext hanswer rfl, hphase, haffairs.trans ?_⟩
    simp only [Affairs.change, MapAct.onAffair, if_pos hphase]
  · -- the phase is another one, and stays
    rw [Phase.shift, if_neg hphase] at hanswer
    refine .inl ⟨_, _, Prod.ext hanswer rfl, haffairs.trans ?_⟩
    exact Affairs.change_eq_self (if_neg hphase)

end OnMap

/-! ## Acts on the scheduler -/

theorem affairs_onScheduler (deployment : Deployment n S K V) (act : SchedulerAct n)
    (hact : act.LeavesJobs) : (deployment.onScheduler act).2.affairs = deployment.affairs := by
  cases act with
  | schedule => exact hact.elim
  | cancel => exact hact.elim
  | begin id =>
      refine affairs_eq (fun _ => rfl) (sameJobs_modifyJob _ id fun _ => rfl) rfl ?_
      simp only [SchedulerAct.events]
      split <;> simp [Event.IsOfJob]
  | finish id =>
      exact affairs_eq (fun _ => rfl) (sameJobs_modifyJob _ id fun _ => rfl) rfl
        (by simp [SchedulerAct.events, Event.IsOfJob])
  | isShutdown | shutdown | refuse | jobCount | isReady =>
      exact affairs_eq (fun _ => rfl) (.refl _) rfl (by simp [SchedulerAct.events, Event.IsOfJob])

theorem exists_onScheduler (deployment : Deployment n S K V) (act : SchedulerAct n)
    (hact : act.LeavesJobs) :
    ∃ answer later, deployment.onScheduler act = (answer, later) ∧
      later.affairs = deployment.affairs :=
  ⟨_, _, rfl, deployment.affairs_onScheduler act hact⟩

theorem owners_of_job {deployment : Deployment n S K V} {id : Nat} {job : Job n}
    (hjob : deployment.scheduler.jobs[id]? = some job) :
    deployment.affairs.owners[id]? = some job.owner := by
  show (deployment.scheduler.jobs.map Job.owner)[id]? = some job.owner
  rw [List.getElem?_map, hjob, Option.map_some]

theorem jobsOf_onScheduler (deployment : Deployment n S K V) (act : SchedulerAct n)
    (map : Fin n) :
    (deployment.onScheduler act).2.jobsOf map =
      ((act.events deployment.scheduler).map (.ofScheduler (K := K) (V := V))).reverse.filterMap
        (Event.jobOf? map) ++ deployment.jobsOf map :=
  List.filterMap_append

theorem cancellersOf_onScheduler (deployment : Deployment n S K V) (act : SchedulerAct n)
    (id : Nat) :
    (deployment.onScheduler act).2.cancellersOf id =
      ((act.events deployment.scheduler).map (.ofScheduler (K := K) (V := V))).reverse.filterMap
        (Event.cancellerOf? id) ++ deployment.cancellersOf id :=
  List.filterMap_append

/-- A task that is refused is no matter of affairs, and one that is accepted becomes the latest job
of its map. -/
theorem onScheduler_cases_schedule (deployment : Deployment n S K V) (map : Fin n)
    (initialDelay delay : Duration) :
    (∃ error later, deployment.onScheduler (.schedule map initialDelay delay) =
      (.error error, later) ∧ later.affairs = deployment.affairs) ∨
    ∃ runsAtOnce later, deployment.onScheduler (.schedule map initialDelay delay) =
      (.ok ⟨deployment.affairs.owners.length, runsAtOnce⟩, later) ∧
        later.affairs = deployment.affairs.schedule map := by
  cases hobjection : deployment.scheduler.objection? with
  | some error =>
      -- the scheduler objects, and nothing happens but that it says so
      have hanswer : (deployment.onScheduler (.schedule map initialDelay delay)).1 =
          .error error := by simp [onScheduler, SchedulerAct.answer, hobjection]
      refine .inl ⟨error, _, Prod.ext hanswer rfl, ?_⟩
      have happly : (SchedulerAct.schedule map initialDelay delay).apply deployment.scheduler =
          deployment.scheduler := by simp [SchedulerAct.apply, hobjection]
      refine affairs_eq (fun _ => rfl) (congrArg _ (congrArg _ happly)) rfl ?_
      simp [SchedulerAct.events, hobjection, Event.IsOfJob]
  | none =>
      -- the new job comes at the end of the list, so its number is the number of jobs so far
      have hanswer : (deployment.onScheduler (.schedule map initialDelay delay)).1 =
          .ok ⟨deployment.affairs.owners.length, deployment.scheduler.runsOnSchedule⟩ := by
        simp [onScheduler, SchedulerAct.answer, hobjection, affairs]
      refine .inr ⟨_, _, Prod.ext hanswer rfl, ?_⟩
      have hjobs : (deployment.onScheduler (.schedule map initialDelay delay)).2.scheduler.jobs =
          deployment.scheduler.jobs ++
            [⟨map, delay, false, false, some (deployment.scheduler.age + initialDelay.ns)⟩] := by
        simp [onScheduler, SchedulerAct.apply, hobjection, note]
      refine Affairs.ext (funext fun other => ?_) ?_ (funext fun id => ?_) (funext fun id => ?_)
      · -- its owner has one job more, any other map as many as before
        show (deployment.state other).affair (jobsOf _ other) = _
        rw [jobsOf_onScheduler, Affairs.of_schedule]
        by_cases h : other = map
        · subst h
          simp [SchedulerAct.events, hobjection, Event.jobOf?, affairs, MapState.affair]
        · have h' : ¬ map = other := fun heq => h heq.symm
          simp [SchedulerAct.events, hobjection, Event.jobOf?, affairs, h, h']
      · simp [affairs, hjobs]
      · simp only [affairs, hjobs, Affairs.isCancelled_schedule, List.map_append,
          List.getElem?_append]
        split
        · rfl
        · next h =>
          rw [List.getElem?_eq_none (Nat.le_of_not_lt h)]
          cases id - (deployment.scheduler.jobs.map Job.cancelled).length <;> rfl
      · show cancellersOf _ id = deployment.cancellersOf id
        simp [cancellersOf_onScheduler, SchedulerAct.events, hobjection, Event.cancellerOf?]

theorem onScheduler_cases_begin (deployment : Deployment n S K V) (id : Nat) :
    ∃ beginning later, deployment.onScheduler (.begin id) = (beginning, later) ∧
      later.affairs = deployment.affairs ∧
        ∀ owner, beginning = .begun owner → deployment.affairs.owners[id]? = some owner := by
  refine ⟨_, _, rfl, deployment.affairs_onScheduler (.begin id) trivial, fun owner howner => ?_⟩
  replace howner : deployment.scheduler.beginning id = .begun owner := howner
  unfold Scheduler.beginning at howner
  split at howner
  · -- a run begins only of a job that is there, and with its owner
    cases howner
  · next job hjob =>
    split at howner
    · cases howner
    · exact Beginning.begun.inj howner ▸ owners_of_job hjob

theorem affairs_cancel (deployment : Deployment n S K V) (map : Fin n) {id : Nat}
    (hid : id < deployment.affairs.owners.length) :
    (deployment.onScheduler (.cancel map id)).2.affairs = deployment.affairs.cancel map id := by
  have hlength : id < deployment.scheduler.jobs.length := by simpa [affairs] using hid
  have hjobs : (deployment.onScheduler (.cancel map id)).2.scheduler.jobs =
      deployment.scheduler.jobs.modify id fun job => { job with cancelled := true } := rfl
  refine Affairs.ext (funext fun other => ?_) ?_ (funext fun other => ?_) (funext fun other => ?_)
  · exact congrArg (deployment.state other).affair (deployment.jobsOf_onScheduler _ other)
  · exact deployment.scheduler.map_modifyJob id fun _ => rfl
  · simp only [affairs, hjobs, Affairs.isCancelled_cancel, List.getElem?_map, List.getElem?_modify]
    by_cases h : id = other
    · subst h
      simp [List.getElem?_eq_getElem hlength]
    · have h' : ¬ other = id := fun heq => h heq.symm
      simp [h, h']
  · -- only that job has one canceller more
    show cancellersOf _ other = _
    by_cases h : id = other
    · subst h
      simp [cancellersOf_onScheduler, SchedulerAct.events, Event.cancellerOf?, affairs]
    · have h' : ¬ other = id := fun heq => h heq.symm
      simp [cancellersOf_onScheduler, SchedulerAct.events, Event.cancellerOf?, affairs, h, h']

/-- Whether a job that is cancelled is run once more is what the one who cancels it is told. -/
theorem exists_onScheduler_cancel {deployment : Deployment n S K V} (map : Fin n) {owner : Fin n}
    {id : Nat} (howner : deployment.affairs.owners[id]? = some owner) :
    ∃ runs marked, deployment.onScheduler (.cancel map id) = (runs, marked) ∧
      marked.affairs = deployment.affairs.cancel map id :=
  ⟨_, _, rfl, deployment.affairs_cancel map (List.getElem?_eq_some_iff.mp howner).1⟩

end Deployment

end ExpiringMap
