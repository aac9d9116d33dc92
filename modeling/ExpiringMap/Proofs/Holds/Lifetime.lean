import ExpiringMap.Proofs.Holds.Respect
import ExpiringMap.Proofs.Jobs.Ownership

/-!
# How long a map lasts

A map lasts as long as somebody holds it: a handle of it, a call that is in progress, or a run of
its job.  Handles may be dropped at any time, also by hooks and while a run keeps the map alive.
Main statement: `maps_last_while_held`.

* As long as the map is held, nobody but a stop cancels its job, and no drop changes its store.
  What is asked of it through a handle is answered.
* With the last hold on it the map gives up the job that it keeps, which is cancelled at once and
  for the first time.  A map that is stopped keeps none, and nothing is cancelled.
* From then on nobody holds the map ever again, takes its lock, calls a hook of it or writes to its
  log.  A run of any of its jobs finds the map gone, and that is all.
-/

namespace ExpiringMap

variable {n : Nat} {S K V α : Type}

/-- Whether nobody who holds a map any more is ever found to hold it again. -/
def Deployment.Fades (earlier later : Deployment n S K V) : Prop :=
  ∀ map, (earlier.state map).isHeld = false → (later.state map).isHeld = false

theorem Deployment.Fades.refl (deployment : Deployment n S K V) : deployment.Fades deployment :=
  fun _ => id

theorem Deployment.Fades.trans {first second third : Deployment n S K V} (h : first.Fades second)
    (h' : second.Fades third) : first.Fades third :=
  fun map hgone => h' map (h map hgone)

theorem Deployment.Fades.of_affairs {earlier later : Deployment n S K V}
    (h : later.affairs = earlier.affairs) : earlier.Fades later := fun map hgone => by
  rw [not_isHeld_iff] at hgone ⊢
  rwa [h]

variable [DecidableEq K]

/-- Whether runs of the jobs of a map are in vain once nobody holds it. -/
def Deployment.RunsInVain (plan : Plan n S K V) (map : Fin n) (deployment : Deployment n S K V) :
    Prop :=
  (deployment.state map).isHeld = false → ∀ id job, deployment.scheduler.jobs[id]? = some job →
    job.owner = map → ∀ retirement consultation,
      ∀ moment : Moment n S K V,
        moment ∈ (Operation.runOnce retirement id).trace (plan.respond consultation) deployment →
          moment.act.IsVain map id

theorem Deployment.runsInVain (plan : Plan n S K V) (map : Fin n)
    (deployment : Deployment n S K V) : deployment.RunsInVain plan map := by
  intro hgone id job hjob howner retirement consultation
  have howned : deployment.affairs.owners[id]? = some map :=
    howner ▸ Deployment.owners_of_job hjob
  exact (Operation.ends_runOnce_in_vain plan consultation howned (not_isHeld_iff.mp hgone)
    retirement).1

/-- Whether a request has been served as it should be while maps come to their end, given what has
become of them since. -/
structure Serving.MindsHolds (serving : Serving n S K V) (map : Fin n)
    (last : Deployment n S K V) : Prop
    extends GoByHolds map (serving.request = .map .stop ∧ serving.map = map) serving.moments where
  /-- Once nobody holds the map, nobody ever does again. -/
  fades : ∀ moment ∈ serving.moments, (moment.before.state map).isHeld = false →
    (moment.after.state map).isHeld = false ∧ (last.state map).isHeld = false
  /-- Whoever has a handle of the map is answered. -/
  answered : ∀ asked, serving.request = .map asked → serving.map = map →
    ∀ moment ∈ serving.moments, moment.act = .act (.map map .borrow) →
      (moment.before.state map).hasHandle = true → serving.outcome ≠ .ok .noHandle
  /-- Dropping a handle changes no store. -/
  stores : serving.request = .dropHandle → ∀ moment ∈ serving.moments, ∀ other,
    (moment.after.state other).store = (moment.before.state other).store

section

variable (plan : Plan n S K V) (consultation : Consultation n S K V)
  (deployment : Deployment n S K V)

open Operation Program

/-- A map that is asked through a handle of it has something to say. -/
theorem ends_serveMap_answers (settings : Settings n S K V) (map : Fin n)
    (asked : MapRequest K V) :
    (serveMap settings map asked).Ends (plan.respond consultation)
      (fun outcome _ _ => outcome ≠ .ok .noHandle) deployment := by
  have hfinish : ∀ {β : Type} {operation : Operation n K V β} (finish : β → Outcome (Answer V)),
      (∀ result, finish result ≠ .ok .noHandle) →
        (operation.bind fun result => .done (finish result)).Ends (plan.respond consultation)
          (fun outcome _ _ => outcome ≠ .ok .noHandle) deployment :=
    fun finish hfinish => ends_bind.mpr (hfinish _)
  cases asked with
  | purge => exact hfinish _ fun outcome => by cases outcome <;> exact nofun
  | describe layout =>
      exact show (Except.ok (Answer.text _) : Outcome (Answer V)) ≠ .ok .noHandle from nofun
  | name | interval => exact ends_done.mpr nofun
  | get | put | putIfAbsent | remove | size | isEmpty | start | stop | phase | isSchedulerShutdown
  | addHandle | awaitSize => exact hfinish _ fun _ => nofun

/-- Whoever has a handle of a map is answered, and whoever has none does no more than to find that
out. -/
theorem ends_serve_answers (settings : Settings n S K V) (map : Fin n) (asked : MapRequest K V) :
    (serve settings map (.map asked)).Ends (plan.respond consultation)
      (fun outcome moments _ => outcome ≠ .ok .noHandle ∨
        ∀ moment ∈ moments, (moment.before.state map).hasHandle = false) deployment := by
  refine ends_bind.mpr ?_
  rcases heq : deployment.onMap plan.enumeration map .borrow with ⟨borrowed, begun⟩
  refine (ends_onMap_bind heq).mpr ?_
  -- without a handle nothing is done after the one step that has found that out
  cases borrowed with
  | true =>
      refine ends_bind.mpr ((ends_serveMap_answers plan consultation _ settings map asked).mono
        fun outcome _ between houtcome => ?_)
      exact ends_bind.mpr (.inl houtcome)
  | false =>
      refine ends_done.mpr (.inr ?_)
      rw [List.singleton_append, List.forall_mem_cons]
      exact ⟨congrArg Prod.fst heq, fun _ hmoment => absurd hmoment List.not_mem_nil⟩

end

/-- What some servings leave of maps that are held and of others, given affairs in order. -/
def MindsHolds (earlier : Deployment n S K V) (servings : List (Serving n S K V))
    (later : Deployment n S K V) : Prop :=
  KeepsOrder earlier servings later ∧ (earlier.affairs.Orderly → earlier.Fades later ∧
    ∀ serving ∈ servings, ∀ map, serving.MindsHolds map later)

omit [DecidableEq K] in
theorem Serving.MindsHolds.later {serving : Serving n S K V} {map : Fin n}
    {last later : Deployment n S K V} (h : serving.MindsHolds map last)
    (hfades : last.Fades later) : serving.MindsHolds map later :=
  { h with
    fades := fun moment hmoment hgone =>
      ⟨(h.fades moment hmoment hgone).1, hfades map (h.fades moment hmoment hgone).2⟩ }

section

variable {plan : Plan n S K V} {list : Listing n S K V} {consultation : Consultation n S K V}
  {deployment : Deployment n S K V}
  (hconsult : ∀ map hook deployment,
    MindsHolds deployment (plan.servingsOfHook list map hook deployment)
      (plan.consult consultation map hook deployment).2)
include hconsult

theorem respectsHolds_operation (map : Fin n) (request : Request K V)
    (h : deployment.affairs.Orderly) :
    Operation.RespectsHolds plan consultation
      (fun stopped => request = .map .stop ∧ map = stopped) (plan.operation map request)
      deployment :=
  Operation.respectsHolds_serve (fun map hook deployment => (hconsult map hook deployment).1)
    (fun heq => ⟨heq, rfl⟩) h (plan.settings map)

/-- Whatever is done for a request, nobody comes to hold a map that nobody has held any more. -/
theorem fades_of_serve (map : Fin n) (request : Request K V) (h : deployment.affairs.Orderly) :
    ∀ moment ∈ (plan.serving consultation map request deployment).moments,
      moment.before.Fades moment.after := by
  have hrespects := respectsHolds_operation hconsult map request h
  intro moment hmoment other hgone
  have hrespond := Program.respond_of_mem_trace _ hmoment
  have hinUse := (hrespects.goByHolds other).inUse moment hmoment
  have hinOrder := hrespects.inOrder moment hmoment
  obtain ⟨act | ⟨asked, hook⟩, answer, before, after⟩ := moment
  · obtain rfl : (before.perform plan.enumeration act).2 = after := congrArg Prod.snd hrespond
    refine not_isHeld_perform ?_ hgone
    -- whoever makes a new handle has taken the map into use
    rintro rfl
    have huses : 0 < (before.state other).uses := hinUse ⟨rfl, trivial⟩
    simp only [MapState.isHeld, decide_eq_false_iff_not] at hgone
    omega
  · obtain rfl : (plan.consult consultation asked hook before).2 = after :=
      congrArg Prod.snd hrespond
    exact ((hconsult asked hook before).2 (hinOrder id)).1 other hgone

theorem mindsHolds_serving {map : Fin n} {request : Request K V}
    (h : deployment.affairs.Orderly) (other : Fin n) :
    (plan.serving consultation map request deployment).MindsHolds other
      ((plan.operation map request).run (plan.respond consultation) deployment).2 := by
  have hfades := fades_of_serve hconsult map request h
  have hrespects := respectsHolds_operation hconsult map request h
  have hend := Program.after_of_trace (plan.respond consultation) Deployment.Fades .refl .trans
    (plan.operation map request) hfades
  refine ⟨hrespects.goByHolds other, fun moment hmoment hgone => ?_, ?_, ?_⟩
  · have hafter := hfades moment hmoment other hgone
    exact ⟨hafter, hend moment hmoment other hafter⟩
  · rintro asked rfl rfl moment hmoment - hhandle
    have hanswers := ends_serve_answers plan consultation deployment (plan.settings map) map asked
    rcases hanswers with hanswered | hnone
    · exact hanswered
    · exact Bool.noConfusion ((hnone moment hmoment).symm.trans hhandle)
  · -- a handle that is dropped changes no store
    rintro rfl moment hmoment stored
    have hdropped := Operation.ends_dropHandle_stores plan consultation map h
    have hmoment' : moment ∈ (Operation.dropHandle map).trace (plan.respond consultation)
        deployment := by
      rwa [Plan.serving, Plan.operation, Operation.serve, Program.bind_eq, Program.trace_bind,
        Program.pure_eq_done, Program.trace_done, List.append_nil] at hmoment
    obtain ⟨hact, hleaves⟩ := hdropped moment hmoment'
    exact Moment.store_eq (Program.respond_of_mem_trace _ hmoment') hleaves hact stored

end

/-- Whatever requests are served, maps come to their end as they should. -/
theorem accrues_mindsHolds (plan : Plan n S K V) : Accrues plan MindsHolds where
  refl deployment := ⟨(accrues_keepsOrder plan).refl deployment, fun _ => ⟨.refl _, by simp⟩⟩
  trans := by
    rintro first second third earlier later ⟨hfirst, hearlier⟩ ⟨hsecond, hlater⟩
    refine ⟨(accrues_keepsOrder plan).trans hfirst hsecond, fun h => ?_⟩
    obtain ⟨hfades, hservings⟩ := hearlier h
    obtain ⟨hfades', hservings'⟩ := hlater (hfirst h).1
    refine ⟨hfades.trans hfades', fun serving hserving map => ?_⟩
    -- the earlier servings mind what comes later, since what has faded stays so
    rcases List.mem_append.mp hserving with hserving | hserving
    · exact (hservings serving hserving map).later hfades'
    · exact hservings' serving hserving map
  enter deployment map hook :=
    ⟨(accrues_keepsOrder plan).enter deployment map hook, fun _ =>
      ⟨.of_affairs (deployment.affairs_enter plan map hook), by simp⟩⟩
  resume deployment map call outcome remember :=
    ⟨(accrues_keepsOrder plan).resume deployment map call outcome remember, fun _ =>
      ⟨.of_affairs (deployment.affairs_resume map call outcome remember), by simp⟩⟩
  leave deployment map hook verdict :=
    ⟨(accrues_keepsOrder plan).leave deployment map hook verdict, fun _ =>
      ⟨.of_affairs (deployment.affairs_leave map hook verdict), by simp⟩⟩
  gather deployment :=
    ⟨(accrues_keepsOrder plan).gather deployment, fun _ =>
      ⟨.of_affairs deployment.affairs_gathered, by simp⟩⟩
  request list consultation hconsult map request deployment := by
    have horder : ∀ map hook deployment, KeepsOrder deployment
        (plan.servingsOfHook list map hook deployment)
        (plan.consult consultation map hook deployment).2 :=
      fun map hook deployment => (hconsult map hook deployment).1
    refine ⟨(accrues_keepsOrder plan).request list consultation horder map request deployment,
      fun h => ?_⟩
    have hfades := fades_of_serve hconsult map request h
    have hend := Program.after_of_trace (plan.respond consultation) Deployment.Fades .refl .trans
      (plan.operation map request) hfades
    refine ⟨Program.run_of_trace _ Deployment.Fades .refl .trans _ hfades,
      fun serving hserved other => ?_⟩
    rcases List.mem_append.mp hserved with hwithin | hself
    · obtain ⟨moment, hmoment, hwithin⟩ := List.mem_flatMap.mp hwithin
      have hafter := hend moment hmoment
      have hrespond := Program.respond_of_mem_trace _ hmoment
      have hinOrder := (respectsHolds_operation hconsult map request h).inOrder moment hmoment
      obtain ⟨act | ⟨asked, hook⟩, answer, before, after⟩ := moment
      · exact absurd hwithin List.not_mem_nil
      · -- what the hook has had served minds holds up to its end, and the rest only fades
        obtain rfl : (plan.consult consultation asked hook before).2 = after :=
          congrArg Prod.snd hrespond
        have hserved := ((hconsult asked hook before).2 (hinOrder id)).2 serving hwithin other
        exact hserved.later hafter
    · rw [List.mem_singleton.mp hself]
      exact mindsHolds_serving hconsult h other

variable (plan : Plan n S K V) (depth : Nat) (drive : Drive) (clockRuns : Bool) (memory : S)
  (standing : Fin n) (calls : List (Call n K V)) (map : Fin n)

/-- Whatever calls are made on maps that have just been built, in which hooks make calls of their
own and the scheduler may run jobs at once: a map lasts as long as somebody holds it, and with the
last hold on it its job is cancelled, after which runs of its jobs are in vain.  When all calls have
come to their end, only handles are left to hold the map, and if there is none, it has cancelled
each of its jobs exactly once. -/
theorem maps_last_while_held :
    let fresh := Deployment.fresh drive clockRuns memory
    let last := (plan.serveCalls (plan.consultation depth) standing calls fresh).2
    (∀ serving ∈ plan.servingsOfCalls (plan.listing depth) (plan.consultation depth) standing
        calls fresh, serving.MindsHolds map last) ∧
      (∀ deployment : Deployment n S K V, deployment.RunsInVain plan map) ∧
      (last.state map).isHeld = (last.state map).hasHandle ∧
      ((last.state map).isHeld = false → ∀ id job, last.scheduler.jobs[id]? = some job →
        job.owner = map → last.cancellersOf id = [map]) := by
  intro fresh last
  have horderly := orderly_fresh (K := K) (V := V) (n := n) drive clockRuns memory
  obtain ⟨hkeeps, hminds⟩ : MindsHolds fresh _ last :=
    (accrues_mindsHolds plan).calls depth standing calls fresh
  obtain ⟨hlast, hfollows⟩ := hkeeps horderly
  have hfresh : fresh.affairs.of map = ⟨.stopped, none, 1, 0, []⟩ := affair_fresh ..
  -- everybody who used the map has let go of it
  have huses : (last.state map).uses = 0 := by
    have huses := hfollows.uses map
    rwa [hfresh] at huses
  refine ⟨fun serving hserving => (hminds horderly).2 serving hserving map,
    fun deployment => deployment.runsInVain plan map, ?_, fun hgone id job hjob howner => ?_⟩
  · rw [MapState.isHeld, huses]
    rfl
  · -- nobody is under way, so the map is settled, and since it is not held all its jobs are
    -- cancelled
    have hquiet : ¬ (last.affairs.of map).phase.InTransit := by
      rw [hfollows.inTransit, hfresh]
      exact False.elim
    have howned : (last.scheduler.jobs.map Job.owner)[id]? = some map := by
      rw [List.getElem?_map, hjob, Option.map_some, howner]
    have hmem : id ∈ (last.affairs.of map).jobs := (hlast.owned map id).mpr howned
    rcases hlast.settled map hquiet with hengaged | hidle
    · exact absurd hengaged.held (not_isHeld_iff.mp hgone)
    · exact hidle.jobs id hmem

/-- One map whose eviction hook drops a handle of it. -/
def dropping : Plan 1 Unit Nat Nat where
  settings _ :=
    { policy := .listener fun _ memory => (memory, .ofCalls (.ok true) [.ask [] .dropHandle]) }
  enumeration _ := .asStored

/-- The run of the job is all that keeps the map alive when its hook has dropped the only handle, so
the job is cancelled, and run once more in the course of that, at the end of its own run. -/
example :
    let fresh := Deployment.fresh (.byHand false true) false ()
    let last := (dropping.serveCalls (dropping.consultation 1) 0
      [.ask [] (.map .start), .ask [] (.map (.put 7 70 .zero)), .ask [] (.advance 1),
        .ask [] (.runJob 0)] fresh).2
    (last.state 0).isHeld = false ∧ last.cancellersOf 0 = [0] ∧ (last.state 0).store.size = 0 := by
  decide +kernel

end ExpiringMap
