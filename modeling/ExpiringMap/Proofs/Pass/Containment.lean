import ExpiringMap.Proofs.Pass.Interruption
import ExpiringMap.Proofs.Pass.Notification
import ExpiringMap.Proofs.Pass.Unwinding
import ExpiringMap.Proofs.Stopping.Phases

/-!
# How far the panic of a screening gets

A pass that a screening has ended hands the panic on, and how far it gets from there depends on who
has asked for the pass.  A caller is told of it.  A hook ends in it, too, and if it is an eviction
hook, the pass that was consulting it goes on without the entry.  A scheduled run has it written to
the log and comes to its end as usual, so that the job can be run again, and then the pass is made
up for.  All this is `interrupted_pass_contained`.
-/

namespace ExpiringMap

variable {n : Nat} {S K V : Type} [DecidableEq K]

/-! ## Runs of a job -/

/-- Whether a job can be run that makes a pass over a map. -/
structure Deployment.MayRun (deployment : Deployment n S K V) (id : Nat) (map : Fin n) : Prop where
  begins : deployment.scheduler.beginning id = .begun map
  held : (deployment.state map).isHeld = true
  allowed : (deployment.state map).phase.allowsRuns = true

/-- The deployment in which a run of a job has begun and has taken a hold on the map. -/
def Plan.begunRun (plan : Plan n S K V) (id : Nat) (map : Fin n) (starting : Deployment n S K V) :
    Deployment n S K V :=
  ((starting.onScheduler (.begin id)).2.onMap plan.enumeration map .hold).2

/-- To begin a run changes neither the store nor the phase. -/
theorem Plan.state_begunRun (plan : Plan n S K V) (id : Nat) (map : Fin n)
    (starting : Deployment n S K V) :
    ((plan.begunRun id map starting).state map).store = (starting.state map).store ∧
      ((plan.begunRun id map starting).state map).phase = (starting.state map).phase := by
  rw [Plan.begunRun, Deployment.state_onMap, if_pos rfl]
  simp only [MapAct.apply]
  split <;> exact ⟨rfl, rfl⟩

theorem Plan.run_unit (plan : Plan n S K V) (depth : Nat)
    (operation : Operation n K V Unit) (deployment : Deployment n S K V) :
    plan.run depth operation deployment = ((), (plan.run depth operation deployment).2) :=
  rfl

theorem Deployment.onMap_readPhase (enumeration : Fin n → Enumeration K V)
    (deployment : Deployment n S K V) (map : Fin n) :
    deployment.onMap enumeration map .readPhase = ((deployment.state map).phase, deployment) := by
  refine Prod.ext rfl ?_
  show (deployment.setState map (deployment.state map)).note [] = deployment
  simp [Deployment.setState, Deployment.note, Deployment.state, Vector.get]

namespace Operation

open Program

section Runs

variable (plan : Plan n S K V) (depth : Nat) {id : Nat} {map : Fin n}
  {deployment : Deployment n S K V}

/-- What a scheduled pass does about what the pass has come to. -/
def reporting (map : Fin n) : Outcome Unit → Operation n K V Unit
  | .ok () => return
  | .error panic => log map (.passPanicked panic)

omit [DecidableEq K] in
theorem scheduledPass_eq (map : Fin n) :
    (scheduledPass map : Operation n K V Unit) = (readPhase map).bind fun phase =>
      if phase.allowsRuns then
        (log map .runBegins).bind fun _ => (pass map).bind (reporting map)
      else log map .runNotAllowed :=
  rfl

/-- In a phase that allows runs a scheduled pass announces itself, makes a pass, and reports a panic
in which it has ended. -/
theorem scheduledPass_course (hallowed : (deployment.state map).phase.allowsRuns = true) :
    let respond := plan.respond (plan.consultation depth)
    let found := deployment.note [.logged map .runBegins]
    let passed := plan.run depth (pass map) found
    plan.run depth (scheduledPass map) deployment =
        plan.run depth (reporting map passed.1) passed.2 ∧
      ∃ opening, consultations opening = [] ∧ records opening = [(map, .runBegins)] ∧
        (scheduledPass map).trace respond deployment =
          opening ++ (pass map).trace respond found ++
            (reporting map passed.1).trace respond passed.2 := by
  intro respond found passed
  have hread : plan.respond (plan.consultation depth) (.act (.map map .readPhase)) deployment =
      ((deployment.state map).phase, deployment) := deployment.onMap_readPhase plan.enumeration map
  have hlog : plan.respond (plan.consultation depth) (.act (.log map .runBegins)) deployment =
      ((), found) := rfl
  have hpass : plan.run depth (pass map) found = passed := rfl
  -- the phase is read and found to allow runs, and a record is written; then comes the pass
  simp only [Plan.run] at hpass ⊢
  simp only [scheduledPass_eq, readPhase, onMap, log, act_bind, done_bind, run_act, trace_act,
    run_bind, trace_bind, hread, hallowed, if_true, hlog, hpass, respond]
  let opening : List (Moment n S K V) :=
    [⟨.act (.map map .readPhase), (deployment.state map).phase, deployment, deployment⟩,
      ⟨.act (.log map .runBegins), (), deployment, found⟩]
  refine ⟨trivial, opening, rfl, rfl, ?_⟩
  simp only [opening, List.cons_append, List.nil_append]

/-- A run of a job is a scheduled pass between the taking of a hold and its release. -/
theorem runJob_course (h : deployment.MayRun id map) :
    let respond := plan.respond (plan.consultation depth)
    let begun := (deployment.onScheduler (.begin id)).2
    let held := plan.begunRun id map deployment
    let passed := (plan.run depth (scheduledPass map) held).2
    let released := (plan.run depth (release retire map) passed).2
    plan.run depth (task retire map) begun = ((), released) ∧
      plan.run depth (runJob id) deployment = (.ran, (released.onScheduler (.finish id)).2) ∧
      ∃ opening closing, consultations opening = [] ∧ (runJob id).trace respond deployment =
        opening ++ (scheduledPass map).trace respond held ++ closing := by
  intro respond begun held passed released
  have hbegin : plan.respond (plan.consultation depth) (.act (.scheduler (.begin id))) deployment =
      (.begun map, begun) := Prod.ext h.begins rfl
  have hhold : plan.respond (plan.consultation depth) (.act (.map map .hold)) begun =
      (true, held) := Prod.ext h.held rfl
  have hfinish : plan.respond (plan.consultation depth) (.act (.scheduler (.finish id))) released =
      ((released.onScheduler (.finish id)).1, (released.onScheduler (.finish id)).2) := rfl
  have hpass : plan.run depth (scheduledPass map) held = ((), passed) := plan.run_unit ..
  have hrelease : plan.run depth (release retire map) passed = ((), released) := plan.run_unit ..
  have htask : plan.run depth (task retire map) begun = ((), released) := by
    simp only [Plan.run] at hpass hrelease ⊢
    simp only [task, hold, onMap, bind_eq, act_bind, done_bind, run_act, hhold, if_true, run_bind,
      hpass, hrelease]
  refine ⟨htask, ?_, ?_⟩
  · simp only [Plan.run] at htask ⊢
    simp only [runJob, runOnce, beginRun, finishRun, onScheduler, bind_eq, act_bind, done_bind,
      run_act, hbegin, run_bind, htask, hfinish, pure_eq_done, run_done]
  · simp only [runJob, runOnce, beginRun, onScheduler, bind_eq, act_bind, done_bind, trace_act,
      -- before the pass the run begins and takes hold of the map
      respond, hbegin, trace_bind, task, hold, onMap, hhold, if_true]
    let opening : List (Moment n S K V) :=
      [⟨.act (.scheduler (.begin id)), Beginning.begun map, deployment, begun⟩,
        ⟨.act (.map map .hold), true, begun, held⟩]
    refine ⟨opening, ?closing, rfl, ?split⟩
    case split =>
      simp only [opening, List.append_assoc, List.cons_append, List.nil_append]
      rfl

/-- A run of a job in a phase that allows runs makes a pass, and consults nobody before it. -/
theorem runJob_passes (h : deployment.MayRun id map) :
    ∃ opening closing, consultations opening = [] ∧
      (runJob id).trace (plan.respond (plan.consultation depth)) deployment =
        opening ++ (pass map).trace (plan.respond (plan.consultation depth))
          ((plan.begunRun id map deployment).note [.logged map .runBegins]) ++ closing := by
  have hallowed := (plan.state_begunRun id map deployment).2 ▸ h.allowed
  obtain ⟨-, -, opening, closing, hsilent, htrace⟩ := runJob_course plan depth h
  obtain ⟨-, announced, hsilent', -, hscheduled⟩ := scheduledPass_course plan depth hallowed
  refine ⟨opening ++ announced, ?closing, ?silent, ?split⟩
  case silent => rw [consultations_append, hsilent, hsilent', List.append_nil]
  case split =>
    rw [htrace, hscheduled]
    simp only [List.append_assoc]
    rfl

end Runs

/-- A job that is run stays in the table with its owner, and when the run is over, it can be run
again. -/
theorem job_stays (plan : Plan n S K V) (depth : Nat) {id : Nat} {map : Fin n}
    {deployment released : Deployment n S K V} (h : deployment.MayRun id map)
    (hreleased : plan.run depth (task retire map) (deployment.onScheduler (.begin id)).2 =
      ((), released)) :
    ∃ job, released.scheduler.jobs[id]? = some job ∧ job.owner = map ∧
      (released.onScheduler (.finish id)).2.scheduler.jobs[id]? =
        some { job with running := false, due := released.scheduler.dueAfter job.delay } := by
  obtain ⟨beginning, begun, heq, haffairs, howner⟩ := deployment.onScheduler_cases_begin id
  obtain ⟨rfl, rfl⟩ := Prod.mk.inj heq
  have hlasting := lasting_heeds plan
  -- the task may do anything but take the job away
  have hruns := (abides_heeds (hlasting.keeps_consult depth)).runs
  have hheeds := (hruns.task hruns.retire map (deployment.onScheduler (.begin id)).2).1
  rw [← Plan.run, hreleased] at hheeds
  have hstays := Deployment.owner_stays hheeds.owners (haffairs ▸ howner map h.begins)
  replace hstays : (released.scheduler.jobs.map Job.owner)[id]? = some map := hstays
  rw [List.getElem?_map, Option.map_eq_some_iff] at hstays
  obtain ⟨job, hjob, hmap⟩ := hstays
  refine ⟨job, hjob, hmap, ?_⟩
  show (released.scheduler.jobs.modify id _)[id]? = _
  rw [List.getElem?_modify_eq, hjob]
  rfl

/-! ## Where the panic is caught -/

/-- Whether a pass of a map goes over all that has expired, among it what an earlier pass has found
and nobody has taken out or touched since. -/
structure MakesUpFor (map : Fin n) (found later : Deployment n S K V)
    (moments : List (Moment n S K V)) (shown : List (Entry K V))
    (screened notified : List (Entry K V × Outcome Bool)) : Prop where
  consulted : consultations moments = screenings map screened ++ notifications map notified
  listed : shown.Perm ((later.state map).store.expired (later.onClock .read).1)
  /-- The screening hook is shown these entries, all of them unless it panics at one. -/
  screened : screened.map Prod.fst <+: shown ∧
    ((∀ pair ∈ screened, pair.2.isOk = true) → screened.map Prod.fst = shown)
  again : (found.onClock .read).1 ≤ (later.onClock .read).1 →
    ∀ entry ∈ (found.state map).store.expired (found.onClock .read).1,
      entry ∈ (later.state map).store.entries → entry ∈ shown

theorem pass_makesUpFor (plan : Plan n S K V) (consultation : Consultation n S K V) (map : Fin n)
    (found later : Deployment n S K V) :
    ∃ shown screened notified, MakesUpFor map found later
      ((pass map).trace (plan.respond consultation) later) shown screened notified := by
  obtain ⟨shown, screened, notified, hconsulted, -, hshown, hshort, hresult⟩ :=
    inquiry_course plan consultation map later
  refine ⟨shown, screened, notified, ?_, hshown, ⟨hshort, fun hok => ?_⟩, ?_⟩
  · rw [consultations_pass, hconsulted]
  · generalize ((inquiry map).run (plan.respond consultation) later).1 = result at hresult
    rcases result with panic | ⟨candidates, confirmed⟩
    · obtain ⟨-, entry, hentry⟩ := hresult
      exact absurd (hok _ hentry) Bool.false_ne_true
    · exact hresult.1
  · intro hle entry hentry hstill
    refine hshown.mem_iff.mpr (List.mem_filter.mpr ⟨hstill, ?_⟩)
    exact Entry.isExpired_mono hle (List.mem_filter.mp hentry).2

/-- How far a panic gets in which a pass has ended, given what the pass found. -/
structure Contained (plan : Plan n S K V) (depth : Nat) (map : Fin n) (panic : Panic)
    (found : Deployment n S K V) : Prop where
  /-- A caller who has asked for the pass is told of the panic. -/
  purge : ∀ caller (path : Path n) calling, path.last caller = map →
    calling.onMap plan.enumeration map .borrow = (true, found) →
    (plan.serve (plan.consultation depth) caller (.ask path (.map .purge)) calling).1 =
      .error panic
  /-- If a screening hook has asked for it, the pass that was consulting the hook ends in the same
  way. -/
  spreads : ∀ outer opened shown verdict before asked,
    plan.AsksForPass depth outer (.screening shown) before map found →
    ⟨.consult outer (.screening shown), verdict, before, asked⟩ ∈
      (pass outer).trace (plan.respond (plan.consultation (depth + 1))) opened →
    verdict = .error panic ∧ (plan.run (depth + 1) (pass outer) opened).1 = .error panic ∧
      Interrupted outer shown panic opened (plan.run (depth + 1) (pass outer) opened).2
        ((pass outer).trace (plan.respond (plan.consultation (depth + 1))) opened)
  /-- If an eviction hook has asked for it, the pass that was consulting the hook catches the panic
  and goes on. -/
  caught : ∀ outer opened key value verdict before asked,
    plan.AsksForPass depth outer (.eviction key value) before map found →
    ⟨.consult outer (.eviction key value), verdict, before, asked⟩ ∈
      (pass outer).trace (plan.respond (plan.consultation (depth + 1))) opened →
    verdict = .error panic ∧ (plan.run (depth + 1) (pass outer) opened).1 = .ok () ∧
      ∃ screened notified, Catches outer key value panic opened
        (plan.run (depth + 1) (pass outer) opened).2
        ((pass outer).trace (plan.respond (plan.consultation (depth + 1))) opened) screened notified
  /-- A scheduled pass writes one warning, and comes to its end. -/
  scheduled : ∀ running, (running.state map).phase.allowsRuns = true →
    running.note [.logged map .runBegins] = found →
    plan.run depth (scheduledPass map) running =
        ((), (plan.run depth (pass map) found).2.note [.logged map (.passPanicked panic)]) ∧
      (records ((scheduledPass map).trace (plan.respond (plan.consultation depth))
        running)).filter (·.2.level = .warn) = [(map, .passPanicked panic)]
  /-- The run of a job that it belongs to comes to its end, too, and leaves the job to be run
  again. -/
  finishes : ∀ id starting, starting.MayRun id map →
    (plan.begunRun id map starting).note [.logged map .runBegins] = found →
    let warned := (plan.run depth (pass map) found).2.note [.logged map (.passPanicked panic)]
    let released := (plan.run depth (release retire map) warned).2
    plan.run depth (runJob id) starting = (.ran, (released.onScheduler (.finish id)).2) ∧
      ∃ job, released.scheduler.jobs[id]? = some job ∧ job.owner = map ∧
        (released.onScheduler (.finish id)).2.scheduler.jobs[id]? =
          some { job with running := false, due := released.scheduler.dueAfter job.delay }
  /-- Whenever a job of the map is run in a phase that allows runs, a pass is made that makes up for
  this one. -/
  madeUpFor : ∀ id later, later.MayRun id map →
    ∃ opening moments closing shown screened notified,
      (runJob id).trace (plan.respond (plan.consultation depth)) later =
        opening ++ moments ++ closing ∧
      consultations opening = [] ∧
      moments = (pass map).trace (plan.respond (plan.consultation depth))
        ((plan.begunRun id map later).note [.logged map .runBegins]) ∧
      MakesUpFor map found later moments shown screened notified

section Contained

variable {plan : Plan n S K V} {depth : Nat} {map : Fin n} {entry : Entry K V} {panic : Panic}
  {found : Deployment n S K V}

/-- When a pass has ended in a panic, a scheduled pass writes that to the log. -/
theorem scheduledPass_interrupted (hpanic : (plan.run depth (pass map) found).1 = .error panic)
    {running : Deployment n S K V} (hallowed : (running.state map).phase.allowsRuns = true)
    (hfound : running.note [.logged map .runBegins] = found) :
    plan.run depth (scheduledPass map) running =
        ((), (plan.run depth (pass map) found).2.note [.logged map (.passPanicked panic)]) ∧
      records ((scheduledPass map).trace (plan.respond (plan.consultation depth)) running) =
        (map, .runBegins) ::
          (records ((pass map).trace (plan.respond (plan.consultation depth)) found) ++
            [(map, .passPanicked panic)]) := by
  subst hfound
  obtain ⟨hrun, opening, -, hrecords, htrace⟩ := scheduledPass_course plan depth hallowed
  rw [hrun, htrace, hpanic, records_append, records_append, hrecords]
  exact ⟨rfl, rfl⟩

/-- If a screening panics, the pass ends with it, and has told the eviction hook of nothing and
changed nothing itself.  The panic reaches a caller who has asked for the pass, or it ends hooks,
up to an eviction hook whose pass goes on without the entry that it was told of, or it ends in the
log of a scheduled run.  In the next run the pass is made up for.  All this holds whatever the hooks
do, and however deep their calls are nested. -/
theorem interrupted_pass_contained
    (h : (map, .screening entry, .error panic) ∈ consultations
      ((pass map).trace (plan.respond (plan.consultation depth)) found)) :
    (plan.run depth (pass map) found).1 = .error panic ∧
      Interrupted map entry panic found (plan.run depth (pass map) found).2
        ((pass map).trace (plan.respond (plan.consultation depth)) found) ∧
      Contained plan depth map panic found := by
  obtain ⟨hpanic, hinterrupted⟩ := pass_interrupted h
  refine ⟨hpanic, hinterrupted, ?_⟩
  constructor
  case purge => exact fun caller path calling hlast hborrow => Plan.serve_purge hlast hborrow hpanic
  case spreads =>
    intro outer opened shown verdict before asked hasks hmem
    obtain rfl := hasks.verdict_eq hpanic hmem
    exact ⟨rfl, pass_interrupted (List.mem_filterMap.mpr ⟨_, hmem, rfl⟩)⟩
  case caught =>
    intro outer opened key value verdict before asked hasks hmem
    obtain rfl := hasks.verdict_eq hpanic hmem
    exact ⟨rfl, pass_catches hmem⟩
  case scheduled =>
    intro running hallowed hfound
    obtain ⟨hrun, hrecords⟩ := scheduledPass_interrupted hpanic hallowed hfound
    refine ⟨hrun, ?_⟩
    rw [hrecords, hinterrupted.records]
    rfl
  case finishes =>
    intro id starting hmay hfound warned released
    have hallowed := (plan.state_begunRun id map starting).2 ▸ hmay.allowed
    obtain ⟨htask, hrun, -⟩ := runJob_course plan depth hmay
    obtain ⟨hscheduled, -⟩ := scheduledPass_interrupted hpanic hallowed hfound
    rw [hscheduled] at htask hrun
    exact ⟨hrun, job_stays plan depth hmay htask⟩
  case madeUpFor =>
    intro id later hmay
    obtain ⟨opening, closing, hsilent, htrace⟩ := runJob_passes plan depth hmay
    obtain ⟨shown, screened, notified, hmakes⟩ := pass_makesUpFor plan (plan.consultation depth) map
      found ((plan.begunRun id map later).note [.logged map .runBegins])
    refine ⟨opening, _, closing, shown, screened, notified, htrace, hsilent, rfl, ?_⟩
    -- the pass finds the store as it was before the run, at the same time
    have hstore := (plan.state_begunRun id map later).1
    exact ⟨hmakes.consulted, hstore ▸ hmakes.listed, hmakes.screened,
      fun hle entry hentry hstill => hmakes.again hle entry hentry (hstore ▸ hstill)⟩

end Contained

/-- One map whose eviction hook asks for another pass before it says yes, and whose screening hook
panics when it is called next after that. -/
def flaky : Plan 1 Nat Nat Nat where
  settings _ :=
    { policy := .full fun hook memory =>
        match hook with
        | .screening _ => (0, .answer (if memory = 0 then .ok true else .error (.code 7)))
        | .eviction .. => (1, .ofCalls (.ok true) [.ask [] (.map .purge)]) }
  enumeration _ := .asStored

def flakyEntry : Entry Nat Nat :=
  { key := 7, value := 70, timeout := .zero, seq := 0, deadline := some .origin }

/-- The deployment of that map after the entry has been put in and has expired. -/
def flakyOverdue : Deployment 1 Nat Nat Nat :=
  let only : Fin 1 := ⟨0, Nat.zero_lt_one⟩
  let filled := (flaky.run 0 (flaky.operation only (.map (.put 7 70 .zero)))
    (.fresh (.byHand false false) false 0)).2
  (flaky.run 0 (flaky.operation only (.advance 1)) filled).2

/-- What the eviction hook finds when a pass tells it of the entry. -/
def flakyTold : Deployment 1 Nat Nat Nat :=
  let only : Fin 1 := ⟨0, Nat.zero_lt_one⟩
  (flaky.run 2 ((search only).bind (screen only)) flakyOverdue).2

/-- What the other pass finds that the hook asks for. -/
def flakyAmid : Deployment 1 Nat Nat Nat :=
  let only : Fin 1 := ⟨0, Nat.zero_lt_one⟩
  ((flaky.enter flakyTold only (.eviction 7 70)).2.onMap flaky.enumeration only .borrow).2

/-- A pass within the call of an eviction hook, which the screening of its only entry ends. -/
theorem interrupted_pass_contained_nested :
    (flaky.run 1 (pass 0) flakyAmid).1 = .error (.code 7) ∧
      Interrupted 0 flakyEntry (.code 7) flakyAmid (flaky.run 1 (pass 0) flakyAmid).2
        ((pass 0).trace (flaky.respond (flaky.consultation 1)) flakyAmid) ∧
      Contained flaky 1 0 (.code 7) flakyAmid := by
  have hconsulted : consultations
      ((pass 0).trace (flaky.respond (flaky.consultation 1)) flakyAmid) =
        [(0, .screening flakyEntry, .error (.code 7))] := rfl
  exact interrupted_pass_contained (hconsulted ▸ List.mem_singleton_self _)

example : flaky.AsksForPass 1 0 (.eviction 7 70) flakyTold 0 flakyAmid :=
  ⟨_, _, [], _, rfl, Script.unwinds_ofCalls .., rfl, .now, rfl⟩

-- the pass around it comes to its end and keeps the entry
example : ((flaky.run 2 (pass 0) flakyOverdue).2.state 0).store.entries = [flakyEntry] := by
  decide +kernel

end Operation

end ExpiringMap
