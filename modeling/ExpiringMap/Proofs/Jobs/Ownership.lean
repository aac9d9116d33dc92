import ExpiringMap.Proofs.Jobs.Service
import ExpiringMap.Proofs.Reachable

/-!
# Whose the jobs are

However calls, runs and hooks are nested, when all calls have come to their end every map that has a
handle is stopped or started; it keeps a job if and only if it is started, which is the job of its
latest successful start and has not been cancelled; and it has cancelled every other job of its own,
once.  A map without a handle has cancelled them all (`maps_keep_latest_job`).
-/

namespace ExpiringMap

variable {n : Nat} {S K V : Type}

/-- The affair of a map that has just been built. -/
theorem affair_fresh (drive : Drive) (clockRuns : Bool) (memory : S) (map : Fin n) :
    (Deployment.fresh drive clockRuns memory : Deployment n S K V).affairs.of map =
      ⟨.stopped, none, 1, 0, []⟩ := by
  show MapState.affair _ _ = _
  rw [Plan.Reachable.state_fresh]
  rfl

theorem orderly_fresh (drive : Drive) (clockRuns : Bool) (memory : S) :
    (Deployment.fresh drive clockRuns memory : Deployment n S K V).affairs.Orderly where
  owned map id := by
    rw [affair_fresh]
    exact iff_of_false List.not_mem_nil nofun
  fresh _ _ := rfl
  marked _ := rfl
  used map htransit := by
    rw [affair_fresh] at htransit
    exact htransit.elim
  settled map _ := by
    refine .inr ⟨fun _ => ?_, ?_, ?_⟩ <;> rw [affair_fresh]
    exact fun id hid => absurd hid List.not_mem_nil

variable [DecidableEq K]

/-- Whatever requests are served, affairs are kept in order. -/
theorem accrues_keepsOrder (plan : Plan n S K V) : Accrues plan KeepsOrder where
  refl deployment h := ⟨h, .refl deployment.affairs⟩
  trans h₁ h₂ h := by
    obtain ⟨hbetween, hearlier⟩ := h₁ h
    obtain ⟨hlast, hlater⟩ := h₂ hbetween
    rw [startedJobs_append]
    exact ⟨hlast, hearlier.trans hlater⟩
  enter deployment map hook h := by
    rw [Deployment.affairs_enter]
    exact ⟨h, .refl deployment.affairs⟩
  resume deployment map call outcome remember h := by
    rw [Deployment.affairs_resume]
    exact ⟨h, .refl deployment.affairs⟩
  leave deployment map hook verdict h := by
    rw [Deployment.affairs_leave]
    exact ⟨h, .refl deployment.affairs⟩
  gather deployment h := by
    rw [Deployment.affairs_gathered]
    exact ⟨h, .refl deployment.affairs⟩
  -- the only thing that changes jobs is a request, with whatever its hooks have done meanwhile
  request _ _ hconsult map request _ h :=
    Operation.ends_serve hconsult h (plan.settings map) map request

/-- After any calls that are made on maps that have just been built, in which hooks make calls of
their own and the scheduler may run jobs at once: a map with a handle is stopped or started; it
keeps a job if and only if it is started; that is the job of its latest successful start, and nobody
has cancelled it; and every other job of the map has been cancelled once, by the map.  If a map has
no handle any more, that is so of all its jobs. -/
theorem maps_keep_latest_job (plan : Plan n S K V) (depth : Nat) (drive : Drive)
    (clockRuns : Bool) (memory : S) (standing : Fin n) (calls : List (Call n K V)) (map : Fin n) :
    let fresh := Deployment.fresh drive clockRuns memory
    let servings := plan.servingsOfCalls (plan.listing depth) (plan.consultation depth) standing
      calls fresh
    let last := (plan.serveCalls (plan.consultation depth) standing calls fresh).2
    let state := last.state map
    (state.hasHandle = true →
      (state.phase = .stopped ∨ state.phase = .started) ∧
      (state.job.isSome = true ↔ state.phase = .started) ∧
      (∀ id, state.job = some id →
        (startedJobs servings map).getLast? = some id ∧ last.cancellersOf id = [] ∧
          ∃ job, last.scheduler.jobs[id]? = some job ∧ job.owner = map ∧ job.cancelled = false) ∧
      ∀ id job, last.scheduler.jobs[id]? = some job → job.owner = map → state.job ≠ some id →
        last.cancellersOf id = [map]) ∧
    (state.hasHandle = false →
      ∀ id job, last.scheduler.jobs[id]? = some job → job.owner = map →
        last.cancellersOf id = [map]) := by
  intro fresh servings last state
  obtain ⟨horderly, hfollows⟩ : last.affairs.Orderly ∧
      fresh.affairs.Follows (startedJobs servings) last.affairs :=
    (accrues_keepsOrder plan).calls depth standing calls fresh
      (orderly_fresh drive clockRuns memory)
  have hfresh : fresh.affairs.of map = ⟨.stopped, none, 1, 0, []⟩ := affair_fresh ..
  -- whoever used the map has let go of it again, and no start or stop is under way
  have huses : state.uses = 0 := by
    have huses := hfollows.uses map
    rwa [hfresh] at huses
  have hquiet : ¬ (last.affairs.of map).phase.InTransit := by
    rw [hfollows.inTransit, hfresh]
    exact id
  -- its jobs are those that its starts have scheduled, the latest one first
  have hjobs : last.jobsOf map = (startedJobs servings map).reverse := by
    have hjobs := hfollows.jobs map
    rw [hfresh, List.append_nil] at hjobs
    exact hjobs
  have hheld : (last.affairs.of map).IsHeld ↔ state.hasHandle = true := by
    have hsum : (last.affairs.of map).handles + (last.affairs.of map).uses = state.handles := by
      rw [show (last.affairs.of map).uses = 0 from huses]
      rfl
    rw [Affair.IsHeld, hsum, MapState.hasHandle, decide_eq_true_eq]
  have hmem : ∀ id job, last.scheduler.jobs[id]? = some job → job.owner = map →
      id ∈ last.jobsOf map := fun id job hjob howner => by
    refine (horderly.owned map id).mpr ?_
    show (last.scheduler.jobs.map Job.owner)[id]? = some map
    rw [List.getElem?_map, hjob, Option.map_some, howner]
  -- a map that is not in transit is settled, either with its latest job or with none
  rcases horderly.settled map hquiet with
    ⟨hphase, hengaged, id, others, hkept, hlist, hnone, hothers⟩ | ⟨hphase, hkept, hall⟩
  · -- settled with a job: the map is started, and all its other jobs are cancelled
    replace hkept : state.job = some id := hkept
    replace hlist : last.jobsOf map = id :: others := hlist
    replace hphase : state.phase = .started := hphase
    have hhandle := hheld.mp hengaged
    refine ⟨fun _ => ⟨.inr hphase, by simp [hkept, hphase], ?_, ?_⟩, fun hgone => ?_⟩
    · intro kept hkept'
      obtain rfl : id = kept := Option.some.inj (hkept.symm.trans hkept')
      have hlatest : (startedJobs servings map).getLast? = some id := by
        rw [← List.head?_reverse, ← hjobs, hlist, List.head?_cons]
      refine ⟨hlatest, hnone, ?_⟩
      have hlisted : id ∈ last.jobsOf map := hlist ▸ List.mem_cons_self ..
      have howner : (last.scheduler.jobs.map Job.owner)[id]? = some map :=
        (horderly.owned map id).mp hlisted
      rw [List.getElem?_map] at howner
      obtain ⟨job, hjob, howner⟩ := Option.map_eq_some_iff.mp howner
      -- nobody has cancelled the job, so it is not marked as cancelled either
      have hmarked : (last.scheduler.jobs.map Job.cancelled)[id]?.getD false =
          !(last.affairs.cancellers id).isEmpty := horderly.marked id
      rw [hnone, List.getElem?_map, hjob] at hmarked
      exact ⟨job, hjob, howner, hmarked⟩
    · intro other job hjob howner hne
      have hlisted := hmem other job hjob howner
      rw [hlist] at hlisted
      refine hothers other ((List.mem_cons.mp hlisted).resolve_left fun heq => hne ?_)
      rw [hkept, heq]
    · rw [hhandle] at hgone
      cases hgone
  · -- settled without a job: all jobs are cancelled, and if a handle is left the map is stopped
    replace hkept : state.job = none := hkept
    have hcancelled : ∀ id job, last.scheduler.jobs[id]? = some job → job.owner = map →
        last.cancellersOf id = [map] := fun id job hjob howner => hall id (hmem id job hjob howner)
    refine ⟨fun hhandle => ?_, fun _ => hcancelled⟩
    have hstopped : state.phase = .stopped := hphase (hheld.mpr hhandle)
    refine ⟨.inl hstopped, by simp [hkept, hstopped], fun id hid => ?_, ?_⟩
    · rw [hkept] at hid
      cases hid
    · exact fun id job hjob howner _ => hcancelled id job hjob howner

end ExpiringMap
