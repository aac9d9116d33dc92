import ExpiringMap.Proofs.Concurrent.Serial
import ExpiringMap.Proofs.Traffic.Bearings

/-!
# One thread at a time

A lock that excludes lets one thread in at a time (`Guarded`), and a job has one run at a time
(`RunsApart`).  Both can be told from the bearings of the threads, and no deed that their protocol
permits changes it.
-/

namespace ExpiringMap

variable {n : Nat} {S K V : Type}

/-- The bearings of a thread at a map after what has happened. -/
abbrev bearing (map : Fin n) (history : List (Happening n S K V)) (thread : ThreadId) :
    Bearing K V :=
  (Bearing.protocol map).point {} thread history

/-- A deed changes the bearings of its thread and of nobody else. -/
theorem bearing_does (map : Fin n) (history : List (Happening n S K V)) (thread : ThreadId)
    (deed : Deed n S K V) (answer : deed.Answer) :
    bearing map (history ++ [.does thread deed answer]) =
      Function.update (bearing map history) thread
        ((Bearing.protocol map).afterDeed (bearing map history thread) deed answer) := by
  funext other
  by_cases heq : other = thread
  · subst heq
    rw [Function.update_self]
    exact Protocol.point_does_self ..
  · rw [Function.update_of_ne heq]
    exact Protocol.point_does_of_ne _ _ _ (Ne.symm heq) ..

namespace Bearing

variable {map : Fin n} {bearing : Bearing K V} {deed : Deed n S K V}

/-- Whether a thread is inside changes only when it takes the lock or gives it back. -/
theorem isOutside_afterDeed (hpermits : (protocol map).PermitsDeed bearing deed)
    (hlock : deed ≠ .act (.map map .lock)) (hunlock : deed ≠ .act (.map map .unlock))
    (answer : deed.Answer) :
    ((protocol map).afterDeed bearing deed answer).stay = .outside ↔ bearing.stay = .outside := by
  cases deed with
  | act act =>
      cases act with
      | map other act =>
          obtain ⟨rfl, hact⟩ := hpermits
          -- these two are left aside, and a scan is made from inside only
          cases act with
          | lock => exact absurd rfl hlock
          | unlock => exact absurd rfl hunlock
          | scan now => exact ⟨nofun, fun h => absurd h hact⟩
          | shift call source target => cases answer <;> exact Iff.rfl
          | takeJob => cases answer <;> exact Iff.rfl
          | _ => exact Iff.rfl
      | scheduler act =>
          cases act with
          | schedule => cases answer <;> exact Iff.rfl
          | begin => cases answer <;> exact Iff.rfl
          | _ => exact Iff.rfl
      | clock | log | sleep => exact Iff.rfl
  | enter | resume | leave | gather => exact Iff.rfl

end Bearing

section Guarded

variable [DecidableEq K] {plan : Plan n S K V} {map : Fin n} {stage : Stage n S K V}
  {bearings : ThreadId → Bearing K V} {thread : ThreadId} {deed : Deed n S K V}

/-- Whether the lock of a map is held by the thread that is inside, if anybody is, and once. -/
def Guarded (map : Fin n) (stage : Stage n S K V) (bearings : ThreadId → Bearing K V) : Prop :=
  ∀ thread again,
    stage.lock map = .held thread again ↔ (bearings thread).stay ≠ .outside ∧ again = 0

omit [DecidableEq K] in
/-- Nobody else is inside. -/
theorem Guarded.unique (h : Guarded map stage bearings) {first second : ThreadId}
    (hfirst : (bearings first).stay ≠ .outside) (hsecond : (bearings second).stay ≠ .outside) :
    first = second := by
  have hheld := ((h first 0).mpr ⟨hfirst, rfl⟩).symm.trans ((h second 0).mpr ⟨hsecond, rfl⟩)
  exact (Lock.held.inj hheld).1

omit [DecidableEq K] in
/-- A thread that is outside may take the lock only while nobody has it. -/
theorem Guarded.isFree (h : Guarded map stage bearings)
    (houtside : (bearings thread).stay = .outside)
    (hadmits : (stage.lock map).admits thread = true) : stage.lock map = .free := by
  cases hheld : stage.lock map with
  | free => rfl
  | held owner again =>
      rw [hheld] at hadmits
      obtain rfl : owner = thread := of_decide_eq_true hadmits
      exact absurd houtside ((h owner again).mp hheld).1

/-- A thread takes the lock. -/
theorem Guarded.locks (h : Guarded map stage bearings)
    (hexcludes : (plan.settings map).locking.excludes = true)
    (hfree : stage.lock map = .free) :
    Guarded map (stage.perform plan thread (.act (.map map .lock))).2
      (Function.update bearings thread { bearings thread with stay := .inside }) := by
  intro other again
  rw [lock_perform_lock stage thread hexcludes, hfree]
  by_cases heq : other = thread
  · subst heq
    rw [Function.update_self]
    refine ⟨fun hheld => ⟨fun hstay => (by cases hstay), (Lock.held.inj hheld).2.symm⟩, ?_⟩
    rintro ⟨-, hzero⟩
    rw [hzero, Lock.enter]
  · -- the lock was free, so nobody else is inside
    rw [Function.update_of_ne heq]
    refine ⟨fun hheld => absurd (Lock.held.inj hheld).1.symm heq, ?_⟩
    rintro ⟨hinside, -⟩
    cases hfree.symm.trans ((h other 0).mpr ⟨hinside, rfl⟩)

/-- The thread that is inside gives the lock back. -/
theorem Guarded.unlocks (h : Guarded map stage bearings)
    (hinside : (bearings thread).stay ≠ .outside) :
    Guarded map (stage.perform plan thread (.act (.map map .unlock))).2
      (Function.update bearings thread { bearings thread with stay := .outside }) := by
  intro other again
  rw [lock_perform_unlock stage thread, (h thread 0).mpr ⟨hinside, rfl⟩]
  refine ⟨fun hheld => (by cases hheld), ?_⟩
  rintro ⟨hother, -⟩
  by_cases heq : other = thread
  · subst heq
    rw [Function.update_self] at hother
    exact absurd rfl hother
  · rw [Function.update_of_ne heq] at hother
    exact absurd (h.unique hother hinside) heq

theorem Guarded.does (h : Guarded map stage bearings)
    (hexcludes : (plan.settings map).locking.excludes = true)
    (hpermits : (Bearing.protocol map).PermitsDeed (bearings thread) deed)
    (hallows : stage.allows plan thread deed = true) :
    Guarded map (stage.perform plan thread deed).2
      (Function.update bearings thread ((Bearing.protocol map).afterDeed (bearings thread) deed
        (stage.perform plan thread deed).1)) := by
  -- the lock is taken, and only by somebody whom it admits
  by_cases hlock : deed = .act (.map map .lock)
  · subst hlock
    have hadmits : (stage.lock map).admits thread = true := by
      simpa [Stage.allows, hexcludes] using hallows
    exact h.locks hexcludes (h.isFree hpermits.2 hadmits)
  by_cases hunlock : deed = .act (.map map .unlock)
  · subst hunlock
    exact h.unlocks hpermits.2
  intro other again
  rw [lock_perform_other stage thread hlock hunlock, h other again]
  by_cases heq : other = thread
  · subst heq
    rw [Function.update_self, Ne, Ne, Bearing.isOutside_afterDeed hpermits hlock hunlock]
  · rw [Function.update_of_ne heq]

end Guarded

/-! ## Runs -/

section Runs

/-- Whether each job that a thread runs is in progress, and nobody else runs it. -/
structure RunsApart (scheduler : Scheduler n) (bearings : ThreadId → Bearing K V) : Prop where
  running : ∀ thread id, (bearings thread).run = some id →
    ∃ job, scheduler.jobs[id]? = some job ∧ job.running = true
  unique : ∀ first second id, (bearings first).run = some id → (bearings second).run = some id →
    first = second

variable {scheduler later : Scheduler n} {bearings : ThreadId → Bearing K V} {thread : ThreadId}

/-- Whoever runs a job once a thread has other bearings is that thread, or has run it before. -/
theorem run_update {bearing : Bearing K V} {other : ThreadId} {id : Nat}
    (h : (Function.update bearings thread bearing other).run = some id) :
    other = thread ∧ bearing.run = some id ∨ other ≠ thread ∧ (bearings other).run = some id := by
  by_cases heq : other = thread
  · rw [heq, Function.update_self] at h
    exact .inl ⟨heq, h⟩
  · rw [Function.update_of_ne heq] at h
    exact .inr ⟨heq, h⟩

theorem RunsApart.of_running (h : RunsApart scheduler bearings) {bearing : Bearing K V}
    (hrun : bearing.run = (bearings thread).run)
    (hrunning : ∀ (id : Nat) (job : Job n), scheduler.jobs[id]? = some job → job.running = true →
      ∃ job, later.jobs[id]? = some job ∧ job.running = true) :
    RunsApart later (Function.update bearings thread bearing) := by
  -- nobody has a run that was not theirs before
  have hbefore : ∀ {other id}, (Function.update bearings thread bearing other).run = some id →
      (bearings other).run = some id := by
    intro other id hother
    rcases run_update hother with ⟨rfl, hid⟩ | ⟨-, hid⟩
    · exact hrun ▸ hid
    · exact hid
  constructor
  · intro other id hother
    obtain ⟨job, hjob, hbusy⟩ := h.running other id (hbefore hother)
    exact hrunning id job hjob hbusy
  · intro first second id hfirst hsecond
    exact h.unique first second id (hbefore hfirst) (hbefore hsecond)

/-- A run begins of a job that nobody runs. -/
theorem RunsApart.begins (h : RunsApart scheduler bearings) {id : Nat} {job : Job n}
    (hjob : scheduler.jobs[id]? = some job) (hidle : job.running = false) :
    RunsApart (scheduler.modifyJob id fun job => { job with running := true })
      (Function.update bearings thread { bearings thread with run := some id }) := by
  -- the job has not been running, so nobody is at a run of it
  have hnobody : ∀ other, (bearings other).run ≠ some id := by
    intro other hother
    obtain ⟨busy, hbusy, hrunning⟩ := h.running other id hother
    obtain rfl := Option.some.inj (hjob.symm.trans hbusy)
    exact Bool.noConfusion (hidle.symm.trans hrunning)
  constructor
  · intro other busy hother
    simp only [Scheduler.modifyJob, List.getElem?_modify]
    rcases run_update hother with ⟨-, hbusy⟩ | ⟨-, hbusy⟩
    · obtain rfl := Option.some.inj hbusy
      simp [hjob]
    · obtain ⟨job, hjob, hrunning⟩ := h.running other busy hbusy
      have hne : ¬ id = busy := fun hsame => hnobody other (hsame ▸ hbusy)
      exact ⟨job, by simp [hjob, hne], hrunning⟩
  · intro first second busy hfirst hsecond
    rcases run_update hfirst with ⟨rfl, hone⟩ | ⟨-, hone⟩ <;>
      rcases run_update hsecond with ⟨rfl, htwo⟩ | ⟨-, htwo⟩
    · rfl
    · exact absurd (htwo.trans hone.symm) (hnobody second)
    · exact absurd (hone.trans htwo.symm) (hnobody first)
    · exact h.unique first second busy hone htwo

theorem RunsApart.finishes (h : RunsApart scheduler bearings) {id : Nat}
    (hrun : (bearings thread).run = some id) (change : Job n → Job n) :
    RunsApart (scheduler.modifyJob id change)
      (Function.update bearings thread { bearings thread with run := none }) := by
  constructor
  · intro other busy hother
    obtain ⟨-, hnone⟩ | ⟨helse, hbusy⟩ := run_update hother
    · cases hnone
    obtain ⟨job, hjob, hrunning⟩ := h.running other busy hbusy
    -- the one that finishes was alone with its job
    have hne : ¬ id = busy := by
      rintro rfl
      exact helse (h.unique other thread id hbusy hrun)
    exact ⟨job, by simp [Scheduler.modifyJob, hjob, hne], hrunning⟩
  · intro first second busy hfirst hsecond
    obtain ⟨-, hnone⟩ | ⟨-, hone⟩ := run_update hfirst
    · cases hnone
    obtain ⟨-, hnone⟩ | ⟨-, htwo⟩ := run_update hsecond
    · cases hnone
    exact h.unique first second busy hone htwo

/-- An act on the scheduler that the protocol permits leaves runs apart. -/
theorem RunsApart.onScheduler (h : RunsApart scheduler bearings) {map : Fin n}
    {act : SchedulerAct n} (hpermits : (bearings thread).PermitsOnScheduler map act) :
    RunsApart (act.apply scheduler)
      (Function.update bearings thread
        ((bearings thread).afterOnScheduler act (act.answer scheduler))) := by
  cases act with
  | schedule owner initialDelay delay =>
      -- the list of jobs may have become longer, but those that run are still there
      generalize (SchedulerAct.schedule owner initialDelay delay).answer scheduler = answer
      refine h.of_running (by cases answer <;> rfl) fun id job hjob hrunning => ⟨job, ?_, hrunning⟩
      · simp only [SchedulerAct.apply]
        split
        · exact hjob
        · rw [List.getElem?_append_left (List.getElem?_eq_some_iff.mp hjob).1, hjob]
  | cancel owner id =>
      refine h.of_running rfl fun other job hjob hrunning => ?_
      simp only [SchedulerAct.apply, Scheduler.modifyJob, List.getElem?_modify, hjob]
      by_cases heq : id = other <;> simp [heq, hrunning]
  | begin id =>
      cases hjob : scheduler.jobs[id]? with
      -- there is no such job, and nothing begins
      | none =>
          have hanswer : (SchedulerAct.begin id).answer scheduler = .noJob := by
            simp [SchedulerAct.answer, Scheduler.beginning, hjob]
          rw [hanswer]
          refine h.of_running rfl fun other busy hbusy hrunning => ⟨busy, ?_, hrunning⟩
          have hne : ¬ id = other := by
            rintro rfl
            cases hjob.symm.trans hbusy
          simp [SchedulerAct.apply, Scheduler.modifyJob, hne, hbusy]
      | some job =>
          cases hrunning : job.running with
          -- the job is running already, and nothing begins
          | true =>
              have hanswer : (SchedulerAct.begin id).answer scheduler = .busy := by
                simp [SchedulerAct.answer, Scheduler.beginning, hjob, hrunning]
              rw [hanswer]
              refine h.of_running rfl fun other busy hbusy hrunning => ?_
              simp only [SchedulerAct.apply, Scheduler.modifyJob, List.getElem?_modify, hbusy]
              by_cases heq : id = other <;> simp [heq, hrunning]
          | false =>
              have hanswer : (SchedulerAct.begin id).answer scheduler = .begun job.owner := by
                simp [SchedulerAct.answer, Scheduler.beginning, hjob, hrunning]
              rw [hanswer]
              exact h.begins hjob hrunning
  | finish id => exact h.finishes hpermits _
  | isShutdown | shutdown | refuse | jobCount | isReady =>
      exact h.of_running rfl fun id job hjob hrunning => ⟨job, hjob, hrunning⟩

theorem Bearing.run_afterOnMap (bearing : Bearing K V) (act : MapAct K V) (answer : act.Answer) :
    (bearing.afterOnMap act answer).run = bearing.run := by
  cases act with
  | shift | takeJob => cases answer <;> rfl
  | _ => rfl

/-- The jobs of the scheduler change by acts on the scheduler only. -/
theorem Plan.jobs_perform [DecidableEq K] (plan : Plan n S K V) {deed : Deed n S K V}
    (hdeed : ∀ act, deed ≠ .act (.scheduler act)) (deployment : Deployment n S K V) :
    (plan.perform deed deployment).2.scheduler.jobs = deployment.scheduler.jobs := by
  cases deed with
  | act act =>
      cases act with
      | scheduler act => exact absurd rfl (hdeed act)
      | map | clock | log | sleep => rfl
  | enter other hook =>
      simp only [perform, enter]
      split <;> rfl
  | resume | leave | gather => rfl

theorem RunsApart.does [DecidableEq K] {plan : Plan n S K V} {map : Fin n} {stage : Stage n S K V}
    {deed : Deed n S K V} (h : RunsApart stage.deployment.scheduler bearings)
    (hpermits : (Bearing.protocol map).PermitsDeed (bearings thread) deed) :
    RunsApart (stage.perform plan thread deed).2.deployment.scheduler
      (Function.update bearings thread ((Bearing.protocol map).afterDeed (bearings thread) deed
        (stage.perform plan thread deed).1)) := by
  by_cases hact : ∃ act, deed = .act (.scheduler act)
  · obtain ⟨act, rfl⟩ := hact
    exact h.onScheduler hpermits
  · -- only the scheduler changes jobs, and only with it a run begins or ends
    have hjobs : (stage.perform plan thread deed).2.deployment.scheduler.jobs =
        stage.deployment.scheduler.jobs :=
      plan.jobs_perform (fun act heq => hact ⟨act, heq⟩) stage.deployment
    refine h.of_running ?_ fun id job hjob hrunning => ⟨job, by rw [hjobs, hjob], hrunning⟩
    cases deed with
    | act act =>
        cases act with
        | map other act => exact Bearing.run_afterOnMap ..
        | scheduler act => exact absurd ⟨act, rfl⟩ hact
        | clock | log | sleep => rfl
    | enter | resume | leave | gather => rfl

end Runs

end ExpiringMap
