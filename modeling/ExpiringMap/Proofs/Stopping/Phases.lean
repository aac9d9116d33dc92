import ExpiringMap.Proofs.Jobs.Orderly
import ExpiringMap.Proofs.Reachable

/-!
# Phases and lifecycle calls

The journal tells which lifecycle call of a map has got through last.  What everything in a
deployment maintains (`lasting_heeds`) is that a map whose phase allows runs has been started since
it was last stopped, and that the job that a map keeps is its own (`Deployment.Sound`).

A start or a stop does not bring this about at once.  Hooks that are called while it is in progress
may make any calls, but they find the map in a phase from which no other lifecycle call gets
through, so they leave phase and journal as they are in this respect (`Deployment.Heeds`).
-/

namespace ExpiringMap

variable {n : Nat} {S K V α : Type}

/-! ## Calls that have got through -/

/-- The lifecycle call that gets through in an event. -/
def MapEvent.call? : MapEvent K V → Option LifecycleCall
  | entered .starting => some .start
  | entered .stopping => some .stop
  | _ => none

def Event.call? (map : Fin n) : Event n K V → Option LifecycleCall
  | ofMap other event => if other = map then event.call? else none
  | _ => none

/-- The lifecycle call of a map that got through last, among events of which the last one comes
first. -/
def lastCall? (map : Fin n) (events : List (Event n K V)) : Option LifecycleCall :=
  events.findSome? (Event.call? map)

theorem lastCall?_append (map : Fin n) (later earlier : List (Event n K V)) :
    lastCall? map (later ++ earlier) = (lastCall? map later).or (lastCall? map earlier) :=
  List.findSome?_append

theorem lastCall?_append_of_none {map : Fin n} {later earlier : List (Event n K V)}
    (h : ∀ event ∈ later, event.call? map = none) :
    lastCall? map (later ++ earlier) = lastCall? map earlier := by
  have hnone : lastCall? map later = none := List.findSome?_eq_none_iff.mpr h
  rw [lastCall?_append, hnone, Option.none_or]

/-- An act outside of lifecycle calls leaves the phase alone, and keeps no other job. -/
theorem MapAct.OutsideCalls.leaves [DecidableEq K] {act : MapAct K V} (h : act.OutsideCalls)
    (state : MapState K V) :
    (act.apply state).phase = state.phase ∧
      ((act.apply state).job = state.job ∨ (act.apply state).job = none) ∧
        ∀ event ∈ act.events state, event.call? = none := by
  -- of the acts outside of calls only taking the job touches phase or slot
  cases act with
  | setPhase | shift | keepJob => exact h.elim
  | takeJob => exact ⟨rfl, .inr rfl, by simp [events]⟩
  | clear => exact ⟨rfl, .inl rfl, by simp [events, MapEvent.call?]⟩
  | read | insert | insertIfAbsent | remove | removeIfSame =>
      refine ⟨rfl, .inl rfl, fun event hevent => ?_⟩
      simp only [events] at hevent
      grind [MapEvent.call?]
  | lock | unlock | reserve => exact ⟨rfl, .inl rfl, by simp [events, MapEvent.call?]⟩
  | borrow | hold | takeHandle =>
      refine ⟨?_, .inl ?_, by simp [events]⟩ <;> simp only [apply] <;> split <;> rfl
  | scan | size | readPhase | letGo | addHandle => exact ⟨rfl, .inl rfl, by simp [events]⟩

/-! ## Sound phases and jobs -/

namespace Deployment

/-- Whether phases and jobs are what lifecycle calls have made them. -/
structure Sound (deployment : Deployment n S K V) : Prop where
  started : ∀ map, (deployment.state map).phase.allowsRuns = true →
    lastCall? map deployment.journal = some .start
  owned : ∀ map id, (deployment.state map).job = some id →
    deployment.affairs.owners[id]? = some map

theorem sound_fresh (drive : Drive) (clockRuns : Bool) (memory : S) :
    (fresh drive clockRuns memory : Deployment n S K V).Sound where
  started map hallows := by
    rw [Plan.Reachable.state_fresh] at hallows
    cases hallows
  owned map id hjob := by
    rw [Plan.Reachable.state_fresh] at hjob
    cases hjob

/-- A job that is in the table stays there, with the map that it belongs to. -/
theorem owner_stays {earlier later : List (Fin n)} (h : earlier <+: later) {id : Nat}
    {map : Fin n} (howner : earlier[id]? = some map) : later[id]? = some map := by
  obtain ⟨hid, heq⟩ := List.getElem?_eq_some_iff.mp howner
  exact List.getElem?_eq_some_iff.mpr
    ⟨Nat.lt_of_lt_of_le hid h.length_le, (h.getElem hid).symm.trans heq⟩

/-- Whether something leaves it to the lifecycle calls in progress to go on, and phases and jobs
sound. -/
structure Heeds (earlier later : Deployment n S K V) : Prop where
  phase : ∀ map, (earlier.state map).phase.InTransit →
    (later.state map).phase = (earlier.state map).phase
  call : ∀ map, (earlier.state map).phase.InTransit →
    lastCall? map later.journal = lastCall? map earlier.journal
  owners : earlier.affairs.owners <+: later.affairs.owners
  sound : earlier.Sound → later.Sound

theorem Heeds.refl (deployment : Deployment n S K V) : deployment.Heeds deployment :=
  ⟨fun _ _ => rfl, fun _ _ => rfl, List.prefix_refl _, id⟩

theorem Heeds.trans {first second third : Deployment n S K V} (h : first.Heeds second)
    (h' : second.Heeds third) : first.Heeds third where
  phase map htransit := by
    have hphase := h.phase map htransit
    exact (h'.phase map (hphase ▸ htransit)).trans hphase
  call map htransit := by
    have hphase := h.phase map htransit
    exact (h'.call map (hphase ▸ htransit)).trans (h.call map htransit)
  owners := h.owners.trans h'.owners
  sound hsound := h'.sound (h.sound hsound)

variable {earlier later : Deployment n S K V}

/-- What is no matter of the maps is none of phases and lifecycle calls. -/
theorem Aside.heeds (h : earlier.Aside later)
    (howners : earlier.affairs.owners <+: later.affairs.owners) : earlier.Heeds later := by
  obtain ⟨events, hjournal, hnone⟩ := h.journal
  have hcall : ∀ map, lastCall? map later.journal = lastCall? map earlier.journal := by
    intro map
    rw [hjournal]
    -- what happens beside a map is no call of it
    refine lastCall?_append_of_none fun event hevent => ?_
    cases event with
    | ofMap other event => exact absurd hevent (hnone other event)
    | ofScheduler | clockMoved | logged | called | answered | acted | gathered => rfl
  refine ⟨fun map _ => by rw [h.state], fun map _ => hcall map, howners, fun hsound => ⟨?_, ?_⟩⟩
  · intro map hallows
    rw [h.state] at hallows
    rw [hcall]
    exact hsound.started map hallows
  · intro map id hjob
    rw [h.state] at hjob
    exact owner_stays howners (hsound.owned map id hjob)

theorem owners_onScheduler (deployment : Deployment n S K V) (act : SchedulerAct n) :
    deployment.affairs.owners <+: (deployment.onScheduler act).2.affairs.owners := by
  show deployment.scheduler.jobs.map Job.owner <+:
    (act.apply deployment.scheduler).jobs.map Job.owner
  cases act with
  | schedule owner initialDelay delay =>
      simp only [SchedulerAct.apply]
      split
      · exact List.prefix_refl _
      · exact (List.prefix_append ..).map _
  | cancel | begin | finish =>
      simp [SchedulerAct.apply, Scheduler.map_modifyJob]
  | isShutdown | shutdown | refuse | jobCount | isReady => exact List.prefix_refl _

section OnMap

variable [DecidableEq K] {enumeration : Fin n → Enumeration K V}

theorem lastCall?_onMap (deployment : Deployment n S K V) (map other : Fin n) (act : MapAct K V) :
    lastCall? other (deployment.onMap enumeration map act).2.journal =
      if map = other then
        ((act.events (deployment.state map)).reverse.findSome? MapEvent.call?).or
          (lastCall? other deployment.journal)
      else lastCall? other deployment.journal := by
  rw [journal_onMap]
  split
  · next heq =>
    rw [lastCall?_append, lastCall?, ← List.map_reverse, List.findSome?_map]
    simp [Event.call?, heq, Function.comp_def]
  · -- events of another map, none of which is a call of this one
    next hne =>
    refine lastCall?_append_of_none fun event hevent => ?_
    obtain ⟨happened, -, rfl⟩ := List.mem_map.mp (List.mem_reverse.mp hevent)
    exact if_neg hne

/-- An act on a map leaves lifecycle calls in progress alone if it is not at that map that they
are. -/
theorem Heeds.onMap {deployment : Deployment n S K V} (h : earlier.Heeds deployment) (map : Fin n)
    {act : MapAct K V}
    (hcalm : (earlier.state map).phase.InTransit →
      (act.apply (deployment.state map)).phase = (deployment.state map).phase ∧
        ∀ event ∈ act.events (deployment.state map), event.call? = none)
    (hstarted : deployment.Sound → (act.apply (deployment.state map)).phase.allowsRuns = true →
      lastCall? map (deployment.onMap enumeration map act).2.journal = some .start)
    (howned : deployment.Sound → ∀ id, (act.apply (deployment.state map)).job = some id →
      deployment.affairs.owners[id]? = some map) :
    earlier.Heeds (deployment.onMap enumeration map act).2 where
  phase other htransit := by
    rw [state_onMap]
    split
    · -- the phase of this map, which the act leaves alone in transit
      next heq =>
      subst heq
      exact (hcalm htransit).1.trans (h.phase other htransit)
    · exact h.phase other htransit
  call other htransit := by
    rw [lastCall?_onMap, ← h.call other htransit]
    split
    · next heq =>
      subst heq
      -- in transit the act notes no call, so the latest is that of before
      have hnone : (act.events (deployment.state map)).reverse.findSome? MapEvent.call? = none :=
        List.findSome?_eq_none_iff.mpr fun event hevent =>
          (hcalm htransit).2 event (List.mem_reverse.mp hevent)
      rw [hnone, Option.none_or]
    · rfl
  owners := by
    rw [affairs_onMap, Affairs.owners_change]
    exact h.owners
  sound hsound := by
    have hbefore := h.sound hsound
    refine ⟨fun other hallows => ?_, fun other id hjob => ?_⟩
    · -- a map that allows runs was started last
      rw [state_onMap] at hallows
      split at hallows
      · next heq =>
        subst heq
        exact hstarted hbefore hallows
      · next hne =>
        rw [lastCall?_onMap, if_neg (Ne.symm hne)]
        exact hbefore.started other hallows
    · rw [affairs_onMap, Affairs.owners_change]
      rw [state_onMap] at hjob
      split at hjob
      · next heq =>
        subst heq
        exact howned hbefore id hjob
      · exact hbefore.owned other id hjob

theorem heeds_onMap (deployment : Deployment n S K V) (map : Fin n) {act : MapAct K V}
    (hact : act.OutsideCalls) : deployment.Heeds (deployment.onMap enumeration map act).2 := by
  obtain ⟨hphase, hjob, hnone⟩ := hact.leaves (deployment.state map)
  refine (Heeds.refl deployment).onMap map (fun _ => ⟨hphase, hnone⟩) ?_ ?_
  · intro hsound hallows
    rw [hphase] at hallows
    -- the act notes no call, and the phase it leaves was there before
    have hquiet : (act.events (deployment.state map)).reverse.findSome? MapEvent.call? = none :=
      List.findSome?_eq_none_iff.mpr fun event hevent => hnone event (List.mem_reverse.mp hevent)
    rw [lastCall?_onMap, if_pos rfl, hquiet, Option.none_or]
    exact hsound.started map hallows
  · intro hsound id hkept
    rcases hjob with heq | heq
    · exact hsound.owned map id (heq ▸ hkept)
    · rw [heq] at hkept
      cases hkept

end OnMap

end Deployment

section Maintaining

open Deployment Operation Program

variable [DecidableEq K] {plan : Plan n S K V} {consultation : Consultation n S K V}

theorem heeds_respond
    (hconsult : ∀ map hook, Keeps Heeds (plan.consult consultation map hook)) {step : Step n K V}
    (hstep : step.OutsideCalls) (deployment : Deployment n S K V) :
    deployment.Heeds (plan.respond consultation step deployment).2 := by
  cases step with
  | consult map hook => exact hconsult map hook deployment
  | act act =>
      cases act with
      | map map act => exact deployment.heeds_onMap map hstep
      | clock act => exact (deployment.aside_onClock act).heeds (List.prefix_refl _)
      -- the scheduler may have new jobs, but the owners of the old ones stay
      | scheduler act =>
          exact (deployment.aside_onScheduler act).heeds (deployment.owners_onScheduler act)
      | log map record =>
          have haside : deployment.Aside (deployment.note [.logged map record]) :=
            .of_note (fun _ => rfl) rfl (by simp)
          exact haside.heeds (List.prefix_refl _)
      | sleep ns => exact (deployment.aside_elapse ns).heeds (List.prefix_refl _)

/-! ## Outside of lifecycle calls -/

omit [DecidableEq K] in
theorem Step.OnEntries.outsideCalls {step : Step n K V} (h : step.OnEntries) :
    step.OutsideCalls := by
  cases step with
  | act act =>
      cases act with
      | map map done => cases done <;> first | exact h.elim | trivial
      | clock | scheduler | log | sleep => trivial
  | consult map hook => trivial

omit [DecidableEq K] in
/-- What is done to the entries of a map is no part of a lifecycle call. -/
theorem composes_outsideCalls :
    ComposesEntries fun _ (operation : Operation n K V _) =>
      operation.Every Step.OutsideCalls where
  done _ := trivial
  step _ hstep := ⟨hstep.outsideCalls, fun _ => trivial⟩
  bind := every_bind
  guarded _ _ := every_guarded trivial trivial

/-- A relation that every step outside of lifecycle calls maintains, given how scripts are run. -/
structure Abides (plan : Plan n S K V) (consultation : Consultation n S K V)
    (lasts : Deployment n S K V → Deployment n S K V → Prop) : Prop where
  refl : ∀ deployment, lasts deployment deployment
  trans : ∀ {first second third}, lasts first second → lasts second third → lasts first third
  respond : ∀ {step : Step n K V}, step.OutsideCalls → ∀ deployment,
    lasts deployment (plan.respond consultation step deployment).2

namespace Abides

variable {lasts : Deployment n S K V → Deployment n S K V → Prop}

theorem maintains (h : Abides plan consultation lasts) {operation : Operation n K V α}
    (hoperation : operation.Every Step.OutsideCalls) :
    operation.Maintains plan consultation lasts :=
  hoperation.maintains h.refl h.trans fun _ => h.respond

theorem runs (h : Abides plan consultation lasts) :
    ComposesRuns fun _ operation => operation.Maintains plan consultation lasts where
  done := maintains_done h.refl
  step _ _ hcalls := maintains_act (h.respond hcalls)
  bind := maintains_bind (@h.trans)
  scheduledPass map := by
    refine h.maintains (every_bind ⟨trivial, fun _ => trivial⟩ fun phase => ?_)
    split
    · refine every_bind ⟨trivial, fun _ => trivial⟩ fun _ => ?_
      refine every_bind (composes_outsideCalls.pass map) fun outcome => ?_
      cases outcome with
      | ok _ => trivial
      | error panic => exact ⟨trivial, fun _ => trivial⟩
    · exact ⟨trivial, fun _ => trivial⟩

/-- What the two lifecycle calls maintain as well, every request does. -/
theorem calls (h : Abides plan consultation lasts)
    (hstart : ∀ map interval, (start map interval).Maintains plan consultation lasts)
    (hstop : ∀ map, (stop map).Maintains plan consultation lasts) :
    ComposesCalls fun _ operation => operation.Maintains plan consultation lasts where
  toComposesRuns := h.runs
  get map key := h.maintains (composes_outsideCalls.get map key)
  put _ _ _ _ := h.maintains <| every_guarded trivial trivial
    ⟨trivial, fun _ => ⟨trivial, fun _ => ⟨trivial, fun _ => trivial⟩⟩⟩
  putIfAbsent _ _ _ _ := h.maintains <| every_guarded trivial trivial
    ⟨trivial, fun _ => ⟨trivial, fun _ => ⟨trivial, fun _ => trivial⟩⟩⟩
  remove map key := h.maintains (composes_outsideCalls.remove map key)
  pass map := h.maintains (composes_outsideCalls.pass map)
  start := hstart
  stop := hstop

end Abides

theorem abides_heeds (hconsult : ∀ map hook, Keeps Heeds (plan.consult consultation map hook)) :
    Abides plan consultation Heeds :=
  ⟨.refl, .trans, fun hstep => heeds_respond hconsult hstep⟩

/-! ## Starts and stops -/

theorem throughout_onMap {map : Fin n} {act : MapAct K V} {next : act.Answer → Operation n K V α}
    {holds : Deployment n S K V → Prop} {deployment later : Deployment n S K V}
    {answer : act.Answer} (heq : deployment.onMap plan.enumeration map act = (answer, later))
    (h : holds later)
    (hnext : (next answer).Throughout (plan.respond consultation) holds later) :
    ((onMap map act).bind next).Throughout (plan.respond consultation) holds deployment := by
  obtain ⟨rfl, rfl⟩ := Prod.mk.inj heq
  exact throughout_act h hnext

theorem throughout_onScheduler {act : SchedulerAct n} {next : act.Answer → Operation n K V α}
    {holds : Deployment n S K V → Prop} {deployment later : Deployment n S K V}
    {answer : act.Answer} (heq : deployment.onScheduler act = (answer, later)) (h : holds later)
    (hnext : (next answer).Throughout (plan.respond consultation) holds later) :
    ((onScheduler act).bind next).Throughout (plan.respond consultation) holds deployment := by
  obtain ⟨rfl, rfl⟩ := Prod.mk.inj heq
  exact throughout_act h hnext

/-- Whether a start that has been made in one deployment is in progress in another one. -/
structure Deployment.Starting (first : Deployment n S K V) (map : Fin n)
    (deployment : Deployment n S K V) : Prop where
  calm : ¬ (first.state map).phase.InTransit
  heeds : first.Heeds deployment
  phase : (deployment.state map).phase = .starting
  call : lastCall? map deployment.journal = some .start

omit [DecidableEq K] in
theorem Deployment.Starting.heed {first deployment later : Deployment n S K V} {map : Fin n}
    (h : first.Starting map deployment) (hheeds : deployment.Heeds later) :
    first.Starting map later where
  calm := h.calm
  heeds := h.heeds.trans hheeds
  phase := (hheeds.phase map (h.phase ▸ trivial)).trans h.phase
  call := (hheeds.call map (h.phase ▸ trivial)).trans h.call

theorem Deployment.Starting.heeds_setPhase {first deployment : Deployment n S K V} {map : Fin n}
    (h : first.Starting map deployment) {phase : Phase} (hphase : ¬ phase.InTransit) :
    first.Heeds (deployment.onMap plan.enumeration map (.setPhase phase)).2 := by
  refine h.heeds.onMap map (fun htransit => absurd htransit h.calm) (fun _ _ => ?_)
    fun hsound => hsound.owned map
  have hnone : MapEvent.call? (.entered phase : MapEvent K V) = none := by
    cases phase <;> first | rfl | exact absurd trivial hphase
  rw [lastCall?_onMap, if_pos rfl]
  simpa [MapAct.events, hnone] using h.call

theorem Deployment.Starting.keep {first deployment : Deployment n S K V} {map : Fin n}
    (h : first.Starting map deployment) {id : Nat}
    (howner : deployment.affairs.owners[id]? = some map) :
    first.Starting map (deployment.onMap plan.enumeration map (.keepJob id)).2 := by
  refine h.heed ((Heeds.refl deployment).onMap map (fun _ => ⟨rfl, ?_⟩) (fun hsound hallows => ?_)
    fun _ kept hkept => ?_)
  · simp [MapAct.events, MapEvent.call?]
  · rw [lastCall?_onMap, if_pos rfl]
    exact hsound.started map hallows
  · obtain rfl : id = kept := Option.some.inj hkept
    exact howner

/-- A lifecycle call that gets through finds no other one in progress. -/
theorem heeds_shift {call : LifecycleCall} {source target : Phase} (hsource : ¬ source.InTransit)
    (hstarts : target.allowsRuns = true →
      MapEvent.call? (.entered target : MapEvent K V) = some .start)
    (deployment : Deployment n S K V) (map : Fin n) :
    deployment.Heeds (deployment.onMap plan.enumeration map (.shift call source target)).2 := by
  by_cases hphase : (deployment.state map).phase = source
  · have hentered : (deployment.state map).phase.shift call source target = (.ok (), target) :=
      if_pos hphase
    refine (Heeds.refl deployment).onMap map (fun htransit => absurd (hphase ▸ htransit) hsource)
      (fun _ hallows => ?_) fun hsound => hsound.owned map
    simp only [MapAct.apply, hentered] at hallows
    rw [lastCall?_onMap, if_pos rfl]
    simp [MapAct.events, hphase, hstarts hallows]
  · -- the phase is another one, and nothing is entered
    have hleft : ((deployment.state map).phase.shift call source target).2 =
        (deployment.state map).phase := by rw [Phase.shift, if_neg hphase]
    refine (Heeds.refl deployment).onMap map (fun _ => ⟨hleft, ?_⟩) (fun hsound hallows => ?_)
      fun hsound => hsound.owned map
    · simp [MapAct.events, hphase]
    · simp only [MapAct.apply, hleft] at hallows
      rw [lastCall?_onMap, if_pos rfl]
      simpa [MapAct.events, hphase] using hsound.started map hallows

/-- A start that fails puts the map back where it was. -/
theorem Deployment.Starting.throughout_abort {first deployment : Deployment n S K V} {map : Fin n}
    (h : first.Starting map deployment) (error : Error) :
    (do
      setPhase map .stopped
      return .error error : Operation n K V (Except Error Unit)).Throughout
        (plan.respond consultation) first.Heeds deployment := by
  have hback : first.Heeds (deployment.onMap plan.enumeration map (.setPhase .stopped)).2 :=
    h.heeds_setPhase id
  exact throughout_act hback (throughout_done hback)

/-- Once the run has been made that a scheduler may make at once, a start succeeds. -/
theorem Deployment.Starting.throughout_finish {first deployment : Deployment n S K V} {map : Fin n}
    (h : first.Starting map deployment) {id : Nat}
    (howner : deployment.affairs.owners[id]? = some map) :
    (do
      keepJob map id
      setPhase map .started
      return .ok () : Operation n K V (Except Error Unit)).Throughout
        (plan.respond consultation) first.Heeds deployment := by
  set kept := (deployment.onMap plan.enumeration map (.keepJob id)).2
  set ended := (kept.onMap plan.enumeration map (.setPhase .started)).2
  have hkept : first.Starting map kept := h.keep howner
  have hended : first.Heeds ended := hkept.heeds_setPhase fun htransit => htransit
  exact throughout_act hkept.heeds (throughout_act hended (throughout_done hended))

/-- A start goes through a phase of its own, and in the end the map has been started. -/
theorem maintains_start (hconsult : ∀ map hook, Keeps Heeds (plan.consult consultation map hook))
    (map : Fin n) (interval : Duration) :
    (start map interval).Maintains plan consultation Heeds := by
  intro first
  have hshift : first.Heeds
      (first.onMap plan.enumeration map (.shift .start .stopped .starting)).2 :=
    heeds_shift id (fun _ => rfl) first map
  have hcall : lastCall? map
      (first.onMap plan.enumeration map (.shift .start .stopped .starting)).2.journal = _ :=
    lastCall?_onMap ..
  obtain ⟨error, later, heq, -⟩ | ⟨begun, heq, hphase, hbegun⟩ :=
    first.onMap_cases_shift plan.enumeration map .start .stopped .starting
  · rw [heq] at hshift
    exact throughout_onMap heq hshift (throughout_done hshift)
  rw [heq] at hshift hcall
  replace hphase : (first.state map).phase = .stopped := hphase
  have hentered : first.Starting map begun := by
    refine ⟨hphase ▸ id, hshift, ?_, ?_⟩
    · have haffair : begun.affairs.of map = (first.affairs.of map).enter .starting := by
        rw [hbegun, Affairs.of_change, if_pos rfl]
      exact congrArg Affair.phase haffair
    · rw [hcall, if_pos rfl]
      simp [MapAct.events, hphase, MapEvent.call?]
  refine throughout_onMap heq hentered.heeds ?_
  -- the scheduler is asked first whether it is shut down
  rcases hshut : begun.onScheduler .isShutdown with ⟨shut, asked⟩
  have hasked : first.Starting map asked := by
    have hquiet := (begun.aside_onScheduler .isShutdown).heeds (begun.owners_onScheduler _)
    rw [hshut] at hquiet
    exact hentered.heed hquiet
  refine throughout_onScheduler hshut hasked.heeds ?_
  cases shut with
  | true => exact hasked.throughout_abort _
  | false =>
  have hscheduled := (asked.aside_onScheduler (.schedule map .zero interval)).heeds
    (asked.owners_onScheduler _)
  obtain ⟨error, refused, heq, -⟩ | ⟨runsAtOnce, accepted, heq, hadded⟩ :=
    asked.onScheduler_cases_schedule map .zero interval
  · rw [heq] at hscheduled
    have hrefused := hasked.heed hscheduled
    exact throughout_onScheduler heq hrefused.heeds (hrefused.throughout_abort _)
  · rw [heq] at hscheduled
    have haccepted := hasked.heed hscheduled
    have howner : accepted.affairs.owners[asked.affairs.owners.length]? = some map := by
      rw [hadded, Affairs.owners_schedule, List.getElem?_concat_length]
    refine throughout_onScheduler heq haccepted.heeds ?_
    cases runsAtOnce with
    | false => exact haccepted.throughout_finish howner
    | true =>
        have hrun := (abides_heeds hconsult).runs.runJob asked.affairs.owners.length accepted
        refine throughout_bind (Throughout.mono hrun fun _ => haccepted.heeds.trans) ?_
        exact (haccepted.heed hrun.1).throughout_finish (owner_stays hrun.1.owners howner)

/-- A stop goes through a phase of its own, and in the end no run is allowed. -/
theorem maintains_stop (hconsult : ∀ map hook, Keeps Heeds (plan.consult consultation map hook))
    (map : Fin n) : (stop map).Maintains plan consultation Heeds := by
  intro first
  have hshift : first.Heeds
      (first.onMap plan.enumeration map (.shift .stop .started .stopping)).2 :=
    heeds_shift id (by simp [Phase.allowsRuns]) first map
  obtain ⟨error, later, heq, -⟩ | ⟨begun, heq, hphase, -⟩ :=
    first.onMap_cases_shift plan.enumeration map .stop .started .stopping
  · rw [heq] at hshift
    exact throughout_onMap heq hshift (throughout_done hshift)
  rw [heq] at hshift
  replace hphase : (first.state map).phase = .started := hphase
  have hcalm : ¬ (first.state map).phase.InTransit := hphase ▸ id
  refine throughout_onMap heq hshift ?_
  -- what is left to do once the job has been dealt with
  have hrest : ∀ deployment, first.Heeds deployment → (do
      guarded map (clear map)
      setPhase map .stopped
      return .ok () : Operation n K V (Except Error Unit)).Throughout
        (plan.respond consultation) first.Heeds deployment := by
    intro deployment hheeds
    have hempty : (guarded map (clear map)).Maintains plan consultation Heeds :=
      (abides_heeds hconsult).maintains (composes_outsideCalls.empty map)
    refine throughout_bind (Throughout.mono (hempty deployment) fun _ => hheeds.trans) ?_
    have hcleared := hheeds.trans (hempty deployment).1
    have hstopped : first.Heeds (Deployment.onMap plan.enumeration _ map (.setPhase .stopped)).2 :=
      -- nothing in transit is disturbed, since the map was calm before the call
      hcleared.onMap map (fun htransit => absurd htransit hcalm)
        (fun _ hallows => nomatch hallows) fun hsound => hsound.owned map
    exact throughout_act hstopped (throughout_done hstopped)
  have htake : begun.Heeds (begun.onMap plan.enumeration map .takeJob).2 :=
    begun.heeds_onMap map trivial
  rcases heq : begun.onMap plan.enumeration map .takeJob with ⟨job, taken⟩
  rw [heq] at htake
  replace htake := hshift.trans htake
  refine throughout_onMap heq htake ?_
  cases job with
  | none => exact hrest taken htake
  -- the job is cancelled, which may take a run of it
  | some id =>
      have hruns := (abides_heeds hconsult).runs
      have hcancel := hruns.cancel hruns.retire map id taken
      refine throughout_bind (Throughout.mono hcancel fun _ => htake.trans) ?_
      exact hrest _ (htake.trans hcancel.1)

/-! ## Everything in a deployment heeds lifecycle calls -/

theorem composes_heeds (hconsult : ∀ map hook, Keeps Heeds (plan.consult consultation map hook)) :
    ComposesCalls fun _ operation => operation.Maintains plan consultation Heeds :=
  (abides_heeds hconsult).calls (maintains_start hconsult) (maintains_stop hconsult)

end Maintaining

/-- In whatever goes on, a map whose phase allows runs has been started since it was last stopped,
and the job that a map keeps is its own. -/
theorem lasting_heeds [DecidableEq K] (plan : Plan n S K V) : Lasting plan Deployment.Heeds where
  refl := .refl
  trans := .trans
  enter deployment map hook :=
    (deployment.aside_enter plan map hook).heeds
      (by simp only [Deployment.affairs_enter, List.prefix_refl])
  resume deployment map call outcome remember :=
    (deployment.aside_resume map call outcome remember).heeds
      (by simp only [Deployment.affairs_resume, List.prefix_refl])
  leave deployment map hook verdict :=
    (deployment.aside_leave map hook verdict).heeds (List.prefix_refl _)
  gather deployment := deployment.aside_gather.heeds (List.prefix_refl _)
  operation _ hconsult map request :=
    (composes_heeds hconsult).serve (plan.settings map) map request

end ExpiringMap
