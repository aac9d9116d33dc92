import ExpiringMap.Proofs.Holds.Uses

/-!
# Giving up the last hold on a map

The step by which a map loses its last hold is one of whoever gives up a use of it
(`Moment.Loses.act_eq`).  What follows at once is that the job that the map keeps, if it keeps one,
is taken out and cancelled, and nothing else (`ends_retire_retires`): a scheduler may run the job in
the course of that, but this run is in vain.
-/

namespace ExpiringMap

variable {n : Nat} {S K V α : Type}

/-- Whether a step is an act with which a map loses the last hold on it. -/
structure Moment.Loses (moment : Moment n S K V) (map : Fin n) : Prop where
  isAct : moment.act.IsAct
  before : (moment.before.state map).isHeld = true
  after : (moment.after.state map).isHeld = false

/-- Whether a map gives up its job in the steps that follow the one with which it has lost the last
hold on it. -/
structure Retires (map : Fin n) (lost : Moment n S K V) (later : List (Moment n S K V)) : Prop where
  /-- The map keeps a job if and only if it is started, and nobody has cancelled that. -/
  keeps : ((lost.before.state map).phase = .stopped ∧ (lost.before.state map).job = none) ∨
    ((lost.before.state map).phase = .started ∧
      ∃ id, (lost.before.state map).job = some id ∧ lost.before.cancellersOf id = [])
  /-- The job is cancelled at once, and nothing else is done.  No store has changed meanwhile. -/
  cancels : ∃ during rest, later = during ++ rest ∧
    (∀ moment ∈ during, moment.act.GivesUp map (lost.before.state map).job) ∧
    during.filterMap (Moment.cancelled? map) = (lost.before.state map).job.toList ∧
    (∀ id, (Program.reached lost.after during).cancellersOf id =
      if (lost.before.state map).job = some id then [map] else lost.before.cancellersOf id) ∧
    ∀ other, ((Program.reached lost.after during).state other).store =
      (lost.before.state other).store

theorem Step.GivesUp.not_engages {map other : Fin n} {job : Option Nat} {step : Step n K V}
    (h : step.GivesUp map job) : ¬ step.Engages other := by
  rcases h with rfl | ⟨id, -, rfl | rfl | rfl | rfl⟩ <;> simp [Step.Engages, MapAct.NeedsUse]

theorem Retires.append {map : Fin n} {lost : Moment n S K V} {later : List (Moment n S K V)}
    (h : Retires map lost later) (more : List (Moment n S K V)) :
    Retires map lost (later ++ more) := by
  refine ⟨h.keeps, ?_⟩
  obtain ⟨during, rest, heq, hduring⟩ := h.cancels
  exact ⟨during, rest ++ more, by rw [heq, List.append_assoc], hduring⟩

theorem isHeld_iff {deployment : Deployment n S K V} {map : Fin n} :
    (deployment.state map).isHeld = true ↔ (deployment.affairs.of map).IsHeld :=
  decide_eq_true_iff

theorem not_isHeld_iff {deployment : Deployment n S K V} {map : Fin n} :
    (deployment.state map).isHeld = false ↔ ¬ (deployment.affairs.of map).IsHeld := by
  rw [← isHeld_iff, Bool.not_eq_true]

variable [DecidableEq K] {plan : Plan n S K V} {consultation : Consultation n S K V}

/-! ## Who holds a map after an act -/

theorem state_perform_of_ne {act : Act n K V} {map : Fin n} (hact : ∀ done, act ≠ .map map done)
    (deployment : Deployment n S K V) :
    (deployment.perform plan.enumeration act).2.state map = deployment.state map := by
  rcases deployment.aside_perform plan.enumeration act with haside | ⟨other, done, rfl⟩
  · exact haside.state map
  · have hne : map ≠ other := fun heq => hact done (heq ▸ rfl)
    exact (deployment.state_onMap ..).trans (if_neg hne)

variable (plan) in
/-- Nobody loses the last hold on a map but who gives up a use of it. -/
theorem isHeld_perform {act : Act n K V} {map : Fin n} (hact : act ≠ .map map .letGo)
    {deployment : Deployment n S K V} (h : (deployment.state map).isHeld = true) :
    ((deployment.perform plan.enumeration act).2.state map).isHeld = true := by
  by_cases hmap : ∃ done, act = .map map done
  · obtain ⟨done, rfl⟩ := hmap
    show ((deployment.onMap plan.enumeration map done).2.state map).isHeld = true
    rw [Deployment.state_onMap, if_pos rfl]
    simp only [MapState.isHeld, decide_eq_true_eq] at h ⊢
    -- of acts on the map only letting go gives up a hold
    cases done with
    | letGo => exact absurd rfl hact
    | addHandle => simp only [MapAct.apply]; omega
    | borrow | hold | takeHandle =>
        simp only [MapAct.apply, MapState.hasHandle, MapState.isHeld, decide_eq_true_eq]
        split <;> grind
    | _ => exact h
  · rw [state_perform_of_ne fun done heq => hmap ⟨done, heq⟩]
    exact h

/-- Nobody takes a map that is not held any more but who makes a handle out of nothing. -/
theorem not_isHeld_perform {act : Act n K V} {map : Fin n} (hact : act ≠ .map map .addHandle)
    {deployment : Deployment n S K V} (h : (deployment.state map).isHeld = false) :
    ((deployment.perform plan.enumeration act).2.state map).isHeld = false := by
  by_cases hmap : ∃ done, act = .map map done
  · obtain ⟨done, rfl⟩ := hmap
    show ((deployment.onMap plan.enumeration map done).2.state map).isHeld = false
    rw [Deployment.state_onMap, if_pos rfl]
    simp only [MapState.isHeld, decide_eq_false_iff_not] at h ⊢
    -- of acts on the map only one more handle is given without asking who holds it
    cases done with
    | addHandle => exact absurd rfl hact
    | letGo => simp only [MapAct.apply]; omega
    | borrow | hold | takeHandle =>
        simp only [MapAct.apply, MapState.hasHandle, MapState.isHeld, decide_eq_true_eq]
        split <;> grind
    | _ => exact h
  · rw [state_perform_of_ne fun done heq => hmap ⟨done, heq⟩]
    exact h

variable (plan consultation) in
theorem Moment.Loses.act_eq {moment : Moment n S K V} {map : Fin n}
    (h : moment.Loses map)
    (hmoment : plan.respond consultation moment.act moment.before = (moment.answer, moment.after)) :
    moment.act = .act (.map map .letGo) := by
  obtain ⟨act | ⟨other, hook⟩, answer, before, after⟩ := moment
  · obtain rfl : (before.perform plan.enumeration act).2 = after := congrArg Prod.snd hmoment
    by_contra hne
    have hheld := isHeld_perform plan (fun heq => hne (congrArg _ heq)) h.before
    exact Bool.noConfusion (hheld.symm.trans h.after)
  · exact h.isAct.elim

/-! ## Giving up the job -/

theorem Step.GivesUp.leavesStores {map : Fin n} {job : Option Nat} {step : Step n K V}
    (h : step.GivesUp map job) : step.LeavesStores := by
  rcases h with rfl | ⟨id, -, rfl | rfl | rfl | rfl⟩
  · exact fun _ => rfl
  · trivial
  · trivial
  · intro state
    simp only [MapAct.apply]
    split <;> rfl
  · trivial

namespace Operation

open Program

variable (plan consultation)

/-- Once the last hold on a map has been given up, the job that it keeps is cancelled, if it keeps
one. -/
theorem ends_retire_gives_up {map : Fin n} {job : Option Nat} {deployment : Deployment n S K V}
    (hjob : (deployment.affairs.of map).job = job)
    (howner : ∀ id, job = some id → deployment.affairs.owners[id]? = some map)
    (hgone : ¬ (deployment.affairs.of map).IsHeld) :
    (retire map : Operation n K V Unit).Ends (plan.respond consultation) (fun _ moments later =>
      (∀ moment ∈ moments, moment.act.GivesUp map job) ∧
        moments.filterMap (Moment.cancelled? map) = job.toList ∧
        ∀ id, later.cancellersOf id =
          if job = some id then map :: deployment.cancellersOf id
          else deployment.cancellersOf id) deployment := by
  obtain ⟨taken, heq, htaken⟩ := deployment.onMap_takeJob plan.enumeration map
  rw [hjob] at heq
  have hcancellers : ∀ id, taken.affairs.cancellers id = deployment.cancellersOf id := fun id => by
    rw [htaken]
    rfl
  refine (ends_onMap_bind heq).mpr ?_
  cases job with
  -- there is no job, so nothing is left to give up
  | none => exact ends_done.mpr ⟨by simp [Step.GivesUp], rfl, hcancellers⟩
  | some id =>
      have howner' : taken.affairs.owners[id]? = some map := by simpa [htaken] using howner id rfl
      -- taking the job away does not bring the map back
      have hgone' : ¬ (taken.affairs.of map).IsHeld := by
        simpa [htaken, Affair.dropJob, Affair.IsHeld] using hgone
      refine (ends_cancel_in_vain plan consultation howner' hgone').mono
        fun _ moments later hvain => ?_
      obtain ⟨hlater, hgives, hcancelled⟩ := hvain
      refine ⟨?_, ?_, fun other => ?_⟩
      · rw [List.forall_mem_cons]
        exact ⟨.inl rfl, hgives⟩
      · rw [List.filterMap_cons, hcancelled]
        rfl
      · refine (congrFun (congrArg Affairs.cancellers hlater) other).trans ?_
        rw [Affairs.cancellers_cancel, hcancellers, hcancellers]
        by_cases heq : other = id
        · simp [heq]
        · simp [heq, Ne.symm heq]

/-- A map that has lost the last hold on it gives up its job at once. -/
theorem ends_retire_retires {map : Fin n} (lost : Moment n S K V)
    (h : lost.before.affairs.Orderly)
    (hquiet : ¬ (lost.before.affairs.of map).phase.InTransit)
    (hheld : (lost.before.affairs.of map).IsHeld)
    (hgone : ¬ (lost.before.affairs.of map).letGo.IsHeld)
    (hleft : lost.after.affairs = lost.before.affairs.change map Affair.letGo)
    (hstores : ∀ other, (lost.after.state other).store = (lost.before.state other).store) :
    (retire map : Operation n K V Unit).Ends (plan.respond consultation)
      (fun _ moments _ => Retires map lost moments ∧
        ∀ moment ∈ moments, moment.act.GivesUp map (lost.before.state map).job) lost.after := by
  have hself : lost.after.affairs.of map = (lost.before.affairs.of map).letGo := by simp [hleft]
  have hcancellers : ∀ id, lost.after.cancellersOf id = lost.before.cancellersOf id := fun id =>
    congrFun (congrArg Affairs.cancellers hleft) id
  have hkeeps : ((lost.before.state map).phase = .stopped ∧ (lost.before.state map).job = none) ∨
      ((lost.before.state map).phase = .started ∧
        ∃ id, (lost.before.state map).job = some id ∧ lost.before.cancellersOf id = []) := by
    -- nobody is under way, so the map is settled, with its latest job or without any
    rcases h.settled map hquiet with ⟨hphase, -, id, -, hjob, -, hnone, -⟩ | ⟨hphase, hjob, -⟩
    · exact .inr ⟨hphase, id, hjob, hnone⟩
    · exact .inl ⟨hphase hheld, hjob⟩
  have hkept : (lost.after.affairs.of map).job = (lost.before.state map).job := by
    rw [hself, Affair.letGo]
    rfl
  have howner : ∀ id, (lost.before.state map).job = some id →
      lost.after.affairs.owners[id]? = some map := fun id hjob => by
    rw [hleft]
    exact (h.abandon hquiet hgone hjob).1
  obtain ⟨hgives, hcancelled, hlast⟩ :=
    ends_retire_gives_up plan consultation hkept howner (hself ▸ hgone)
  refine ⟨⟨hkeeps, _, [], (List.append_nil _).symm, hgives, hcancelled, fun id => ?_,
    fun other => ?_⟩, hgives⟩
  · rw [reached_trace, hlast, hcancellers]
    split
    · next hjob =>
      -- the job that is given up had not been cancelled before
      rcases hkeeps with ⟨-, hnone⟩ | ⟨-, kept, hkept, hnone⟩
      · exact absurd (hjob.symm.trans hnone) (by simp)
      · obtain rfl : id = kept := Option.some.inj (hjob.symm.trans hkept)
        rw [hnone]
    · rfl
  · -- nothing that is given up is in a store
    rw [reached_trace]
    refine (run_eq_of_trace _ (fun deployment : Deployment n S K V =>
      (deployment.state other).store) _ fun moment hmoment => ?_).trans (hstores other)
    have hstep := hgives moment hmoment
    exact Moment.store_eq (respond_of_mem_trace _ hmoment) hstep.leavesStores hstep.isAct other

end Operation

end ExpiringMap
