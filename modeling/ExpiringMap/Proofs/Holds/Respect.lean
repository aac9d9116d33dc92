import ExpiringMap.Proofs.Holds.Retirement

/-!
# Operations respect the holds on maps

The steps of an operation go by the holds on a map if what needs the map in use is done while it is,
if nobody cancels a job of the map while it is held but who stops it, and if the job is given up at
once when the last hold is (`GoByHolds`).  This holds of the steps of all operations, provided that
hooks keep affairs in order (`respectsHolds_serve`).
-/

namespace ExpiringMap

variable {n : Nat} {S K V α β : Type}

/-- Whether steps go by the holds on a map, if they are those of an operation that stops it or
not. -/
structure GoByHolds (map : Fin n) (stops : Prop) (moments : List (Moment n S K V)) : Prop where
  /-- What needs the map in use is done while it is. -/
  inUse : ∀ moment ∈ moments, moment.act.Engages map → 0 < (moment.before.state map).uses
  /-- While somebody holds the map, only a stop cancels a job of it. -/
  spares : ∀ moment ∈ moments, moment.cancelled? map ≠ none →
    (moment.before.state map).isHeld = true → stops
  /-- With the last hold on it the map gives up its job. -/
  retires : ∀ earlier lost later, moments = earlier ++ lost :: later → lost.Loses map →
    Retires map lost later

namespace GoByHolds

variable {map : Fin n} {stops : Prop} {moment : Moment n S K V}
  {earlier later : List (Moment n S K V)}

theorem nil : GoByHolds map stops ([] : List (Moment n S K V)) :=
  ⟨by simp, by simp, by simp⟩

theorem cons (hinUse : moment.act.Engages map → 0 < (moment.before.state map).uses)
    (hspares : moment.cancelled? map ≠ none → (moment.before.state map).isHeld = true → stops)
    (hretires : moment.Loses map → Retires map moment later) (h : GoByHolds map stops later) :
    GoByHolds map stops (moment :: later) where
  inUse := List.forall_mem_cons.mpr ⟨hinUse, h.inUse⟩
  spares := List.forall_mem_cons.mpr ⟨hspares, h.spares⟩
  retires := by
    rintro (_ | ⟨first, between⟩) lost last heq hlost
    · obtain ⟨rfl, rfl⟩ := List.cons.inj heq
      exact hretires hlost
    · exact h.retires between lost last (List.cons.inj heq).2 hlost

theorem append (h : GoByHolds map stops earlier) (h' : GoByHolds map stops later) :
    GoByHolds map stops (earlier ++ later) where
  inUse := List.forall_mem_append.mpr ⟨h.inUse, h'.inUse⟩
  spares := List.forall_mem_append.mpr ⟨h.spares, h'.spares⟩
  retires before lost after heq hlost := by
    rcases List.append_eq_append_iff.mp heq with ⟨between, rfl, rfl⟩ | ⟨between, rfl, hrest⟩
    · exact h'.retires between lost after rfl hlost
    · -- the map has lost the last hold on it in the first steps
      cases between with
      | nil => exact h'.retires [] lost after hrest.symm hlost
      | cons first rest =>
          obtain ⟨rfl, rfl⟩ := List.cons.inj hrest
          exact (h.retires before lost rest rfl hlost).append later

end GoByHolds

/-- Whether steps go by the holds on all maps, given which of them the steps stop, and whether
affairs are in order whenever a hook is consulted in them. -/
structure RespectHolds (stops : Fin n → Prop) (moments : List (Moment n S K V)) : Prop where
  goByHolds : ∀ map, GoByHolds map (stops map) moments
  inOrder : ∀ moment ∈ moments, ¬ moment.act.IsAct → moment.before.affairs.Orderly

namespace RespectHolds

variable {stops : Fin n → Prop} {moment : Moment n S K V} {earlier later : List (Moment n S K V)}

theorem nil : RespectHolds stops ([] : List (Moment n S K V)) :=
  ⟨fun _ => .nil, by simp⟩

theorem append (h : RespectHolds stops earlier) (h' : RespectHolds stops later) :
    RespectHolds stops (earlier ++ later) :=
  ⟨fun map => (h.goByHolds map).append (h'.goByHolds map),
    List.forall_mem_append.mpr ⟨h.inOrder, h'.inOrder⟩⟩

theorem cons (hact : ¬ moment.act.IsAct → moment.before.affairs.Orderly)
    (hinUse : ∀ map, moment.act.Engages map → 0 < (moment.before.state map).uses)
    (hspares : ∀ map, moment.cancelled? map ≠ none →
      (moment.before.state map).isHeld = true → stops map)
    (hretires : ∀ map, moment.Loses map → Retires map moment later)
    (h : RespectHolds stops later) : RespectHolds stops (moment :: later) :=
  ⟨fun map => .cons (hinUse map) (hspares map) (hretires map) (h.goByHolds map),
    List.forall_mem_cons.mpr ⟨hact, h.inOrder⟩⟩

end RespectHolds

variable [DecidableEq K]

namespace Operation

open Program

section Parts

variable (plan : Plan n S K V) (consultation : Consultation n S K V) (stops : Fin n → Prop)

/-- Whether the steps of an operation go by the holds on all maps, given of which maps it is a
stop. -/
def RespectsHolds (operation : Operation n K V α) (deployment : Deployment n S K V) : Prop :=
  operation.Ends (plan.respond consultation) (fun _ moments _ => RespectHolds stops moments)
    deployment

variable {plan consultation stops} {deployment : Deployment n S K V}

theorem respectsHolds_done (result : α) :
    RespectsHolds plan consultation stops (.done result : Operation n K V α) deployment :=
  ends_done.mpr .nil

theorem respectsHolds_bind {operation : Operation n K V α} {next : α → Operation n K V β}
    {post : α → List (Moment n S K V) → Deployment n S K V → Prop}
    (h : RespectsHolds plan consultation stops operation deployment)
    (hpost : operation.Ends (plan.respond consultation) post deployment)
    (hnext : ∀ result moments between, post result moments between →
      RespectsHolds plan consultation stops (next result) between) :
    RespectsHolds plan consultation stops (operation.bind next) deployment :=
  ends_bind.mpr (h.append (hnext _ _ _ hpost))

/-- Whatever the first of two operations leaves, the second goes by the holds on all maps. -/
theorem respectsHolds_bind_of_forall {operation : Operation n K V α} {next : α → Operation n K V β}
    (h : RespectsHolds plan consultation stops operation deployment)
    (hnext : ∀ result between, RespectsHolds plan consultation stops (next result) between) :
    RespectsHolds plan consultation stops (operation.bind next) deployment :=
  ends_bind.mpr (h.append (hnext _ _))

/-- Nothing special goes on in an act that neither gives up a use of a map nor cancels a job. -/
theorem respectsHolds_act {act : Act n K V} {next : act.Answer → Operation n K V α}
    (hinUse : ∀ map, (Step.act act).Engages map → 0 < (deployment.state map).uses)
    (hletGo : ∀ map, act ≠ .map map .letGo) (hcancel : ∀ map id, act ≠ .scheduler (.cancel map id))
    (hnext : RespectsHolds plan consultation stops
      (next (deployment.perform plan.enumeration act).1)
      (deployment.perform plan.enumeration act).2) :
    RespectsHolds plan consultation stops (.act (.act act) next) deployment := by
  refine ends_act.mpr (.cons (absurd trivial) hinUse (fun map hcancelled => ?_)
    (fun map hlost => ?_) hnext)
  · refine absurd ?_ hcancelled
    unfold Moment.cancelled?
    split
    · next heq =>
      injection heq with heq
      exact absurd (Step.act.inj heq) (hcancel _ _)
    · rfl
  · -- the act lets nothing go, so no map is lost by it
    have hact := hlost.act_eq plan consultation rfl
    exact absurd (Step.act.inj hact) (hletGo map)

theorem respectsHolds_onMap {map : Fin n} {act : MapAct K V} {answer : act.Answer}
    {later : Deployment n S K V} {next : act.Answer → Operation n K V α}
    (heq : deployment.onMap plan.enumeration map act = (answer, later))
    (hinUse : act.NeedsUse → 0 < (deployment.affairs.of map).uses) (hletGo : act ≠ .letGo)
    (hnext : RespectsHolds plan consultation stops (next answer) later) :
    RespectsHolds plan consultation stops ((onMap map act).bind next) deployment := by
  obtain ⟨rfl, rfl⟩ := Prod.mk.inj heq
  refine respectsHolds_act ?_ (fun other hact => ?_) (by simp) hnext
  · rintro other ⟨rfl, hneeds⟩
    exact hinUse hneeds
  · obtain ⟨-, hact⟩ := Act.map.inj hact
    exact hletGo hact

theorem respectsHolds_onScheduler {act : SchedulerAct n} {answer : act.Answer}
    {later : Deployment n S K V} {next : act.Answer → Operation n K V α}
    (heq : deployment.onScheduler act = (answer, later)) (hcancel : ∀ map id, act ≠ .cancel map id)
    (hnext : RespectsHolds plan consultation stops (next answer) later) :
    RespectsHolds plan consultation stops ((onScheduler act).bind next) deployment := by
  obtain ⟨rfl, rfl⟩ := Prod.mk.inj heq
  exact respectsHolds_act (fun _ hengages => hengages.elim) (by simp)
    (fun map id hact => hcancel map id (Act.scheduler.inj hact)) hnext

/-- An operation at a map goes by the holds on all maps if the map is in use. -/
theorem respectsHolds_of_isAt {list : Listing n S K V}
    (hconsult : ∀ map hook deployment,
      ExpiringMap.KeepsOrder deployment (plan.servingsOfHook list map hook deployment)
        (plan.consult consultation map hook deployment).2)
    {map : Fin n} {operation : Operation n K V α} (hat : operation.Every (Step.IsAt map))
    (h : deployment.affairs.Orderly) (huses : 0 < (deployment.affairs.of map).uses) :
    RespectsHolds plan consultation stops operation deployment := by
  induction operation generalizing deployment with
  | done result => exact respectsHolds_done result
  | act step rest ih =>
      obtain ⟨hstep, hrest⟩ := hat
      cases step with
      -- an act at the map keeps jobs, holds and uses as they are
      | act act =>
          have hsame := hstep.affairs_eq plan deployment
          refine respectsHolds_act (fun other hengages => ?_) ?_ ?_ (ih _ (hrest _) ?_ ?_)
          · rw [hstep.eq_of_engages hengages]
            exact huses
          · rintro other rfl
            exact absurd (hstep.2 ⟨.stopped, none, 0, 1, []⟩)
              (by simp [MapAct.onAffair, Affair.letGo])
          · rintro other id rfl
            exact hstep
          · rwa [hsame]
          · rwa [hsame]
      -- a consultation may change other maps, but it leaves the use of this one
      | consult other hook =>
          obtain rfl : other = map := hstep
          obtain ⟨horderly, hfollows⟩ := hconsult other hook deployment h
          refine ends_act.mpr (.cons (fun _ => h) ?_ (fun _ hne => absurd rfl hne)
            (fun _ hlost => hlost.isAct.elim) (ih _ (hrest _) horderly ?_))
          · rintro map rfl
            exact huses
          · show 0 < ((plan.consult consultation other hook deployment).2.affairs.of other).uses
            rw [hfollows.uses]
            exact huses

/-! ## Giving up a hold -/

/-- A map that nobody holds gives up its job without using itself. -/
theorem respectsHolds_of_givesUp {map : Fin n} {job : Option Nat} {operation : Operation n K V α}
    (hgives : operation.Ends (plan.respond consultation)
      (fun _ moments _ => ∀ moment ∈ moments, moment.act.GivesUp map job) deployment)
    (hgone : (deployment.state map).isHeld = false) :
    RespectsHolds plan consultation stops operation deployment := by
  -- nothing brings a map back that is gone, so it is gone at every moment
  let isGone (deployment : Deployment n S K V) : Prop := (deployment.state map).isHeld = false
  have hthroughout : isGone (operation.run (plan.respond consultation) deployment).2 ∧
      ∀ moment ∈ operation.trace (plan.respond consultation) deployment,
        isGone moment.before ∧ isGone moment.after :=
    holds_of_trace (plan.respond consultation) operation hgone fun moment hmoment hbefore => by
      have hrespond := respond_of_mem_trace _ hmoment
      have hstep := hgives moment hmoment
      obtain ⟨act | ⟨other, hook⟩, answer, before, after⟩ := moment
      · obtain rfl : (before.perform plan.enumeration act).2 = after := congrArg Prod.snd hrespond
        refine not_isHeld_perform ?_ hbefore
        rintro rfl
        simp [Step.GivesUp, Step.IsVain] at hstep
      · simp [Step.GivesUp, Step.IsVain] at hstep
  refine ⟨fun other => ⟨fun moment hmoment hengages => ?_, fun moment hmoment hcancels hheld => ?_,
    fun earlier lost later heq hlost => ?_⟩, fun moment hmoment hact => ?_⟩
  · exact absurd hengages (hgives moment hmoment).not_engages
  · have hstep := hgives moment hmoment
    have hbefore := (hthroughout.2 moment hmoment).1
    obtain ⟨act, answer, before, after⟩ := moment
    -- the only cancellation is that of the map that is gone
    rcases hstep with rfl | ⟨id, -, rfl | rfl | rfl | rfl⟩
    · exact absurd rfl hcancels
    · by_cases hother : map = other
      · subst hother
        exact Bool.noConfusion (hheld.symm.trans hbefore)
      · exact absurd (if_neg hother) hcancels
    · exact absurd rfl hcancels
    · exact absurd rfl hcancels
    · exact absurd rfl hcancels
  · -- a map is lost by letting go, which is not among these steps
    have hmoment : lost ∈ operation.trace (plan.respond consultation) deployment := by simp [heq]
    have hact := hlost.act_eq plan consultation (respond_of_mem_trace _ hmoment)
    have hstep := hgives lost hmoment
    rw [hact] at hstep
    simp [Step.GivesUp, Step.IsVain] at hstep
  · rcases hgives moment hmoment with heq | ⟨id, -, heq | heq | heq | heq⟩ <;>
      exact absurd (heq ▸ trivial) hact

variable (plan consultation stops) in
/-- Whatever has been done with a map in use, the use is given up as it should be, and that changes
no store. -/
theorem ends_release_respects {earlier : Affairs n} {map : Fin n} {act : Affair → Affair}
    {started : Fin n → List Nat} (hearlier : earlier.Orderly)
    (hused : (earlier.of map).Used (act (earlier.of map)))
    (hfollows : (earlier.change map act).Follows started deployment.affairs)
    (h : deployment.affairs.Orderly) :
    (release retire map : Operation n K V Unit).Ends (plan.respond consultation)
      (fun _ moments _ => RespectHolds stops moments ∧
        ∀ moment ∈ moments, moment.act.IsAct ∧ moment.act.LeavesStores) deployment := by
  -- the use that is to be given up is still counted
  have huses : (deployment.affairs.of map).uses = (earlier.of map).uses + 1 := by
    rw [hfollows.uses, Affairs.of_change, if_pos rfl, hused.uses]
  obtain ⟨last, left, heq, hlast, hleft⟩ := deployment.onMap_letGo plan.enumeration map
  have hinUse : ∀ other, (Step.act (Act.map map MapAct.letGo) : Step n K V).Engages other →
      0 < (deployment.state other).uses := by
    rintro other ⟨rfl, -⟩
    show 0 < (deployment.affairs.of map).uses
    omega
  have hother : ∀ other, Moment.Loses ⟨.act (.map map .letGo), last, deployment, left⟩ other →
      other = map := fun other hlost => by
    have hact := hlost.act_eq plan consultation heq
    simpa [eq_comm] using hact
  refine (ends_onMap_bind heq).mpr ?_
  cases last with
  -- others hold the map still, so it is not lost
  | false =>
      have hheld : (deployment.affairs.of map).letGo.IsHeld := by simpa using hlast
      refine ends_done.mpr ⟨.cons (absurd trivial) hinUse (fun _ hne => absurd rfl hne)
        (fun other hlost => ?_) .nil, by simp [Step.IsAct, Step.LeavesStores, MapAct.apply]⟩
      obtain rfl := hother other hlost
      refine absurd ?_ (not_isHeld_iff.mp hlost.after)
      simpa [hleft] using hheld
  -- this was the last hold, so the map is lost now and gives up its job
  | true =>
      have hgone : ¬ (deployment.affairs.of map).letGo.IsHeld := hlast.mp rfl
      have hquiet := hearlier.quiet hused hfollows hgone
      let lost : Moment n S K V := ⟨.act (.map map .letGo), true, deployment, left⟩
      have hheld : (lost.before.affairs.of map).IsHeld := by
        show 0 < _ + (deployment.affairs.of map).uses
        omega
      have hstores : ∀ other, (left.state other).store = (deployment.state other).store := by
        intro other
        obtain rfl : (deployment.onMap plan.enumeration map .letGo).2 = left :=
          congrArg Prod.snd heq
        rw [Deployment.state_onMap]
        split
        · next heq => rw [heq]; rfl
        · rfl
      -- what follows is its retirement, all of it after the loss
      have hretired := ends_retire_retires plan consultation lost h hquiet hheld hgone
        hleft hstores
      have hleft' : (left.state map).isHeld = false := by
        rw [not_isHeld_iff, hleft]
        simpa using hgone
      have hrespects : RespectsHolds plan consultation stops (retire map) left :=
        respectsHolds_of_givesUp (hretired.mono fun _ _ _ h => h.2) hleft'
      refine ⟨.cons (absurd trivial) hinUse (fun _ hne => absurd rfl hne) (fun other hlost => ?_)
        hrespects, List.forall_mem_cons.mpr ⟨⟨trivial, fun _ => rfl⟩, fun moment hmoment => ?_⟩⟩
      · -- the loss is made up for by what follows
        obtain rfl := hother other hlost
        exact hretired.1
      · -- what follows neither asks anybody nor changes a store
        have hgives := hretired.2 moment hmoment
        exact ⟨hgives.isAct, hgives.leavesStores⟩

theorem respectsHolds_dropHandle (map : Fin n) (h : deployment.affairs.Orderly) :
    RespectsHolds plan consultation stops (dropHandle map) deployment := by
  obtain ⟨taken, heq, hheld, htaken⟩ | ⟨later, heq, -⟩ :=
    deployment.onMap_cases_takeHandle plan.enumeration map
  · have hused := Affair.used_takeHandle hheld
    have hfollows : (deployment.affairs.change map Affair.takeHandle).Follows (fun _ => [])
        taken.affairs := htaken ▸ .refl _
    refine respectsHolds_onMap heq nofun nofun ?_
    have hrelease := ends_release_respects plan consultation stops h hused hfollows
      (htaken ▸ h.use hused)
    exact respectsHolds_bind_of_forall hrelease.1 fun _ _ => respectsHolds_done true
  · exact respectsHolds_onMap heq nofun nofun (respectsHolds_done false)

variable (plan consultation) in
/-- Dropping a handle changes no store, be it the last hold on the map or not. -/
theorem ends_dropHandle_stores (map : Fin n) (h : deployment.affairs.Orderly) :
    (dropHandle map : Operation n K V Bool).Ends (plan.respond consultation) (fun _ moments _ =>
      ∀ moment ∈ moments, moment.act.IsAct ∧ moment.act.LeavesStores) deployment := by
  have htakes : (Step.act (.map map .takeHandle) : Step n K V).LeavesStores := fun state => by
    simp only [MapAct.apply]
    split <;> rfl
  obtain ⟨taken, heq, hheld, htaken⟩ | ⟨later, heq, -⟩ :=
    deployment.onMap_cases_takeHandle plan.enumeration map
  · -- a handle is turned into a use, which is given up at once
    have hused := Affair.used_takeHandle hheld
    have hfollows : (deployment.affairs.change map Affair.takeHandle).Follows (fun _ => [])
        taken.affairs := htaken ▸ .refl _
    have hrelease := ends_release_respects plan consultation (fun _ => False) h hused hfollows
      (htaken ▸ h.use hused)
    refine (ends_onMap_bind heq).mpr (ends_bind.mpr (hrelease.mono fun _ moments _ hmoments => ?_))
    refine ends_done.mpr ?_
    rw [List.append_nil, List.forall_mem_cons]
    exact ⟨⟨trivial, htakes⟩, hmoments.2⟩
  · refine (ends_onMap_bind heq).mpr (ends_done.mpr ?_)
    rw [List.forall_mem_cons]
    exact ⟨⟨trivial, htakes⟩, by simp⟩

end Parts

/-! ## Jobs -/

section Jobs

variable {plan : Plan n S K V} {list : Listing n S K V} {consultation : Consultation n S K V}
  {stops : Fin n → Prop} {deployment : Deployment n S K V}
  (hconsult : ∀ map hook deployment,
    ExpiringMap.KeepsOrder deployment (plan.servingsOfHook list map hook deployment)
      (plan.consult consultation map hook deployment).2)
include hconsult

theorem respectsHolds_task (map : Fin n) (h : deployment.affairs.Orderly) :
    RespectsHolds plan consultation stops (task retire map) deployment := by
  obtain ⟨held, heq, hheld, hinUse⟩ | ⟨later, heq, -, hlater⟩ :=
    deployment.onMap_cases_hold plan.enumeration map
  · -- the run is let in, so it has a use while it makes its pass
    have hused := Affair.used_use hheld
    have horderly : held.affairs.Orderly := hinUse ▸ h.use hused
    have huses : 0 < (held.affairs.of map).uses := by
      rw [hinUse, Affairs.of_change, if_pos rfl, hused.uses]
      omega
    refine respectsHolds_onMap heq nofun nofun ?_
    refine respectsHolds_bind
      (respectsHolds_of_isAt hconsult (isAt_scheduledPass map) horderly huses)
      (keepsOrder_scheduledPass hconsult map held horderly) fun _ _ run hrun => ?_
    exact (ends_release_respects plan consultation stops h hused (hinUse ▸ hrun.2) hrun.1).1
  · exact respectsHolds_onMap heq nofun nofun (respectsHolds_done ())

theorem respectsHolds_runJob (id : Nat) (h : deployment.affairs.Orderly) :
    RespectsHolds plan consultation stops (runJob id) deployment := by
  obtain ⟨beginning, begun, heq, hbegun, -⟩ := deployment.onScheduler_cases_begin id
  refine respectsHolds_onScheduler heq nofun ?_
  cases beginning with
  | noJob => exact respectsHolds_done _
  | busy => exact respectsHolds_done _
  | begun owner =>
      refine respectsHolds_bind_of_forall (respectsHolds_task hconsult owner (hbegun ▸ h))
        fun _ _ => ?_
      exact respectsHolds_onScheduler rfl nofun (respectsHolds_done _)

theorem respectsHolds_runReady (count id : Nat) (h : deployment.affairs.Orderly) :
    RespectsHolds plan consultation stops (runReady count id) deployment := by
  -- from one job to the next; a run keeps the order, so the jobs after it find it
  induction count generalizing id deployment with
  | zero => exact respectsHolds_done _
  | succ count ih =>
      obtain ⟨ready, asked, heq, hasked⟩ := deployment.exists_onScheduler (.isReady id) trivial
      have horderly : asked.affairs.Orderly := hasked ▸ h
      refine respectsHolds_onScheduler heq nofun ?_
      cases ready with
      | true =>
          refine respectsHolds_bind (respectsHolds_runJob hconsult id horderly)
            (keepsOrder_runJob hconsult id asked horderly) fun _ _ between hbetween => ?_
          exact respectsHolds_bind_of_forall (ih (id + 1) hbetween.1)
            fun _ _ => respectsHolds_done _
      | false => exact ih (id + 1) horderly

/-! ## Starts and stops -/

omit hconsult in
/-- The last act of a call sets the phase. -/
theorem respectsHolds_setPhase {map : Fin n} (huses : 0 < (deployment.affairs.of map).uses)
    (phase : Phase) (result : α) :
    RespectsHolds plan consultation stops (do
      setPhase map phase
      return result) deployment := by
  obtain ⟨_, ended, heq, -⟩ := deployment.exists_onMap plan.enumeration map (.setPhase phase)
  exact respectsHolds_onMap heq (fun _ => huses) nofun (respectsHolds_done result)

omit hconsult in
theorem respectsHolds_keepJob {map : Fin n} (huses : 0 < (deployment.affairs.of map).uses)
    (id : Nat) (result : α) :
    RespectsHolds plan consultation stops (do
      keepJob map id
      setPhase map .started
      return result) deployment := by
  obtain ⟨_, kept, heq, hkept⟩ := deployment.exists_onMap plan.enumeration map (.keepJob id)
  refine respectsHolds_onMap heq (fun _ => huses) nofun (respectsHolds_setPhase ?_ .started result)
  simpa [hkept, MapAct.onAffair, Affair.keepJob] using huses

theorem respectsHolds_start {map : Fin n} (h : deployment.affairs.Orderly)
    (huses : 0 < (deployment.affairs.of map).uses) (interval : Duration) :
    RespectsHolds plan consultation stops (start map interval) deployment := by
  obtain ⟨error, later, heq, -⟩ | ⟨begun, heq, -, hbegun⟩ :=
    deployment.onMap_cases_shift plan.enumeration map .start .stopped .starting
  · exact respectsHolds_onMap heq (fun _ => huses) (by simp) (respectsHolds_done _)
  refine respectsHolds_onMap heq (fun _ => huses) (by simp) ?_
  obtain ⟨shut, asked, hshut, hasked⟩ := begun.exists_onScheduler .isShutdown trivial
  rw [hbegun] at hasked
  have huses' : 0 < (asked.affairs.of map).uses := by simpa [hasked, Affair.enter] using huses
  refine respectsHolds_onScheduler hshut (by simp) ?_
  cases shut with
  | true => exact respectsHolds_setPhase huses' .stopped _
  | false =>
  obtain ⟨error, refused, heq, hrefused⟩ | ⟨runsAtOnce, accepted, heq, hadded⟩ :=
    asked.onScheduler_cases_schedule map .zero interval
  · -- the job is refused, so the phase goes back
    refine respectsHolds_onScheduler heq (by simp) (respectsHolds_setPhase ?_ .stopped _)
    rwa [hrefused]
  · -- the job is accepted, and it may be run at once before it is kept
    refine respectsHolds_onScheduler heq (by simp) ?_
    rw [hasked] at hadded
    replace hadded : accepted.affairs = deployment.affairs.beginStart map := hadded
    have horderly : accepted.affairs.Orderly := hadded ▸ h.begin_start huses
    have hadded' : 0 < (accepted.affairs.of map).uses := by
      simpa [hadded, Affair.enter] using huses
    cases runsAtOnce with
    | true =>
        refine respectsHolds_bind (respectsHolds_runJob hconsult _ horderly)
          (keepsOrder_runJob hconsult _ accepted horderly) fun _ _ between hbetween => ?_
        refine respectsHolds_keepJob ?_ _ _
        rwa [hbetween.2.uses]
    | false => exact respectsHolds_keepJob hadded' _ _

/-- A stop cancels the job of its map while the map is in use. -/
theorem respectsHolds_cancel {map : Fin n} {id : Nat} (hstops : stops map)
    (howner : deployment.affairs.owners[id]? = some map)
    (h : (deployment.affairs.cancel map id).Orderly) :
    RespectsHolds plan consultation stops (cancel retire map id) deployment := by
  obtain ⟨runs, marked, heq, hcancelled⟩ := Deployment.exists_onScheduler_cancel map howner
  have horderly : marked.affairs.Orderly := hcancelled ▸ h
  refine (ends_onScheduler_bind heq).mpr (.cons (absurd trivial) (fun _ hengages => hengages.elim)
    (fun other hne _ => ?_) (fun other hlost => ?_) ?_)
  · by_cases hother : map = other
    · exact hother ▸ hstops
    · exact absurd (if_neg hother) hne
  · have hact := hlost.act_eq plan consultation heq
    cases hact
  · cases runs with
    -- the job is run once more only if the scheduler says so
    | false => exact respectsHolds_done ()
    | true =>
        exact respectsHolds_bind_of_forall (respectsHolds_runJob hconsult id horderly)
          fun _ _ => respectsHolds_done ()

theorem respectsHolds_stop {map : Fin n} (hstops : stops map) (h : deployment.affairs.Orderly)
    (huses : 0 < (deployment.affairs.of map).uses) :
    RespectsHolds plan consultation stops (stop map) deployment := by
  obtain ⟨error, later, heq, -⟩ | ⟨begun, heq, hphase, hbegun⟩ :=
    deployment.onMap_cases_shift plan.enumeration map .stop .started .stopping
  · exact respectsHolds_onMap heq (fun _ => huses) (by simp) (respectsHolds_done _)
  refine respectsHolds_onMap heq (fun _ => huses) (by simp) ?_
  -- the job is taken from its slot, cancelled, and then the store is emptied
  obtain ⟨id, taken, heq, -, htaken, howner, horderly⟩ :=
    exists_takeJob plan.enumeration h hphase huses hbegun
  refine respectsHolds_onMap heq False.elim (by simp) ?_
  refine respectsHolds_bind (respectsHolds_cancel hconsult hstops howner horderly)
    (ends_cancel hconsult howner horderly) fun _ _ cancelled hcancelled => ?_
  have huses' : 0 < (cancelled.affairs.of map).uses := by
    rw [hcancelled.2.uses, htaken]
    simpa [Affair.enter, Affair.dropJob] using huses
  refine respectsHolds_bind
    (respectsHolds_of_isAt hconsult (isAt_guarded map (isAt_onMap map fun _ => rfl)) hcancelled.1
      huses')
    ((composes_keepsOrder hconsult).empty map cancelled hcancelled.1)
    fun _ _ cleared hcleared => ?_
  refine respectsHolds_setPhase ?_ .stopped _
  rwa [hcleared.2.uses]

/-! ## Requests -/

theorem respectsHolds_serveMap {map : Fin n} {asked : MapRequest K V}
    (hstops : asked = .stop → stops map) (h : deployment.affairs.Orderly)
    (huses : 0 < (deployment.affairs.of map).uses) (settings : Settings n S K V) :
    RespectsHolds plan consultation stops (serveMap settings map asked) deployment := by
  -- only a start, a stop and one more handle do more than steps at the map
  by_cases hstart : asked = .start
  · subst hstart
    exact respectsHolds_bind_of_forall (respectsHolds_start hconsult h huses settings.interval)
      fun _ _ => respectsHolds_done _
  by_cases hstop : asked = .stop
  · subst hstop
    exact respectsHolds_bind_of_forall (respectsHolds_stop hconsult (hstops rfl) h huses)
      fun _ _ => respectsHolds_done _
  by_cases hhandle : asked = .addHandle
  · subst hhandle
    obtain ⟨_, later, heq, -⟩ := deployment.exists_onMap plan.enumeration map .addHandle
    exact respectsHolds_onMap heq (fun _ => huses) nofun (respectsHolds_done _)
  exact respectsHolds_of_isAt hconsult (isAt_serveMap map settings hstart hstop hhandle) h huses

theorem respectsHolds_withHandle {map : Fin n} {asked : MapRequest K V}
    (hstops : asked = .stop → stops map) (h : deployment.affairs.Orderly)
    (settings : Settings n S K V) :
    RespectsHolds plan consultation stops (withHandle map (serveMap settings map asked))
      deployment := by
  obtain ⟨begun, heq, hheld, hbegun⟩ | ⟨later, heq, hlater⟩ :=
    deployment.onMap_cases_borrow plan.enumeration map
  · -- while it is served the request has a use of its own, which is released in the end
    have hused := Affair.used_use hheld
    have horderly : begun.affairs.Orderly := hbegun ▸ h.use hused
    have huses : 0 < (begun.affairs.of map).uses := by
      rw [hbegun, Affairs.of_change, if_pos rfl, hused.uses]
      omega
    refine respectsHolds_onMap heq nofun nofun ?_
    refine respectsHolds_bind (respectsHolds_serveMap hconsult hstops horderly huses settings)
      (ends_serveMap hconsult horderly huses settings asked) fun _ _ between hbetween => ?_
    obtain ⟨hserved, started, -, hfollows⟩ := hbetween
    have hrelease :=
      ends_release_respects plan consultation stops h hused (hbegun ▸ hfollows) hserved
    exact respectsHolds_bind_of_forall hrelease.1 fun _ _ => respectsHolds_done _
  · exact respectsHolds_onMap heq nofun nofun (respectsHolds_done _)

/-- The steps that are taken for a request go by the holds on all maps. -/
theorem respectsHolds_serve {map : Fin n} {request : Request K V}
    (hstops : request = .map .stop → stops map) (h : deployment.affairs.Orderly)
    (settings : Settings n S K V) :
    RespectsHolds plan consultation stops (serve settings map request) deployment := by
  have hfinish : ∀ {β γ : Type} {operation : Operation n K V β} (finish : β → γ),
      RespectsHolds plan consultation stops operation deployment →
        RespectsHolds plan consultation stops
          (operation.bind fun result => .done (finish result)) deployment :=
    fun finish hoperation =>
      respectsHolds_bind_of_forall hoperation fun _ _ => respectsHolds_done _
  -- an act beside the maps respects all holds
  have hact : ∀ {act : Act n K V}, (∀ map, ¬ (Step.act act).Engages map) →
      (∀ map, act ≠ .map map .letGo) → (∀ map id, act ≠ .scheduler (.cancel map id)) →
      RespectsHolds plan consultation stops (.act (.act act) .done) deployment :=
    fun hengages hletGo hcancel => respectsHolds_act
      (fun map h => absurd h (hengages map)) hletGo hcancel (respectsHolds_done _)
  cases request with
  | map asked =>
      refine hfinish _ (respectsHolds_withHandle hconsult (fun heq => hstops ?_) h settings)
      rw [heq]
  | dropHandle => exact hfinish _ (respectsHolds_dropHandle map h)
  | advance ns => exact hfinish _ (hact (fun _ => id) nofun nofun)
  | rewind ns => exact hfinish _ (hact (fun _ => id) nofun nofun)
  | sleep milliseconds => exact hfinish _ (hact (fun _ => id) nofun nofun)
  | shutdown => exact hfinish _ (hact (fun _ => id) nofun nofun)
  | refuse error => exact hfinish _ (hact (fun _ => id) nofun nofun)
  | runJob id => exact hfinish _ (respectsHolds_runJob hconsult id h)
  | tick =>
      refine hfinish _ ?_
      obtain ⟨count, counted, heq, hcounted⟩ := deployment.exists_onScheduler .jobCount trivial
      exact respectsHolds_onScheduler heq nofun
        (respectsHolds_runReady hconsult count 0 (hcounted ▸ h))

end Jobs

end Operation

end ExpiringMap
