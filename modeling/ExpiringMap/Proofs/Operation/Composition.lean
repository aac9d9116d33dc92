import ExpiringMap.Consultation
import ExpiringMap.Proofs.Trace

/-!
# What operations are composed of

Every operation is put together from plain steps, from what is done under a lock, and from the two
operations that place entries.  So what holds of these, and of one operation after another, holds
of whatever is done for a request (`Composes.serve`), and of the parts that come up on the way.

There are four layers to this.  What is done to the entries of a map, a pass above all, is composed
of steps on entries (`ComposesEntries`), where telling the eviction hook of an entry may count as
one step together with what becomes of its answer (`ComposesPasses`).  What is done about handles
and about the runs of jobs is composed of steps of service and of scheduled passes
(`ComposesRuns`), and what is done about the lifecycle as well, as long as no map is stopped
(`ComposesQuiet`); with the operations that move entries themselves that is all there is
(`ComposesService`).  So something that holds of these operations need not hold of the single steps
of a pass, nor of those of a start or a stop (`ComposesCalls`).
-/

namespace ExpiringMap

variable {n : Nat} {S K V : Type}

/-- Whether an act on a map is plain: it neither has to do with the lock nor places an entry. -/
def MapAct.IsPlain : MapAct K V → Prop
  | lock | unlock | insert .. | insertIfAbsent .. => False
  | _ => True

def Step.IsPlain : Step n K V → Prop
  | .act (.map _ done) => done.IsPlain
  | _ => True

/-- Whether a plain act on a map has to do with its entries. -/
def MapAct.OnEntries : MapAct K V → Prop
  | reserve | read .. | remove _ | removeIfSame .. | scan _ | size | clear => True
  | _ => False

/-- Whether a step is one of those that plain operations on entries are made of. -/
def Step.OnEntries : Step n K V → Prop
  | .act (.map _ done) => done.OnEntries
  | .act (.clock .read) | .act (.log ..) | .consult .. => True
  | _ => False

/-- Whether a step consults an eviction hook. -/
def Step.ConsultsEviction : Step n K V → Prop
  | .consult _ (.eviction ..) => True
  | _ => False

/-- Whether an act on a map leaves its entries and its lock alone. -/
def MapAct.OfService : MapAct K V → Prop
  | lock | unlock | reserve | read .. | insert .. | insertIfAbsent .. | remove _ | removeIfSame ..
  | scan _ | clear => False
  | _ => True

/-- Whether a step is one of those that are taken outside of operations on entries. -/
def Step.OfService : Step n K V → Prop
  | .act (.map _ done) => done.OfService
  | .act (.log _ (.passSummary ..)) | .consult .. => False
  | .act _ => True

/-- Whether an act on a map is not one of those by which a start or a stop goes on. -/
def MapAct.OutsideCalls : MapAct K V → Prop
  | setPhase _ | shift .. | keepJob _ => False
  | _ => True

def Step.OutsideCalls : Step n K V → Prop
  | .act (.map _ done) => done.OutsideCalls
  | _ => True

/-- Whether a request has to do neither with entries nor with the lifecycle. -/
def MapRequest.IsPlain : MapRequest K V → Prop
  | get _ | put .. | putIfAbsent .. | remove _ | purge | start | stop => False
  | _ => True

/-- Whether a request leaves it to passes to take entries out, and puts none in. -/
def MapRequest.IsQuiet : MapRequest K V → Prop
  | put .. | putIfAbsent .. | remove .. | stop => False
  | _ => True

theorem MapAct.OnEntries.isPlain {act : MapAct K V} (h : act.OnEntries) : act.IsPlain := by
  cases act <;> first | exact h | trivial

theorem Step.OnEntries.isPlain {step : Step n K V} (h : step.OnEntries) : step.IsPlain := by
  cases step with
  | act act =>
      cases act with
      | map map done => exact MapAct.OnEntries.isPlain h
      | clock | scheduler | log | sleep => trivial
  | consult map hook => trivial

theorem MapAct.OfService.isPlain {act : MapAct K V} (h : act.OfService) : act.IsPlain := by
  cases act <;> first | exact h | trivial

theorem Step.OfService.isPlain {step : Step n K V} (h : step.OfService) : step.IsPlain := by
  cases step with
  | act act =>
      cases act with
      | map map done => exact MapAct.OfService.isPlain h
      | clock | scheduler | log | sleep => trivial
  | consult map hook => trivial

namespace Operation

open Program

theorem every_guarded {α : Type} {allowed : Step n K V → Prop} {map : Fin n}
    {body : Operation n K V α} (hlock : allowed (.act (.map map .lock)))
    (hunlock : allowed (.act (.map map .unlock))) (h : body.Every allowed) :
    (guarded map body).Every allowed := by
  refine every_bind ⟨hlock, fun _ => trivial⟩ fun _ => every_bind h fun result => ?_
  exact every_bind ⟨hunlock, fun _ => trivial⟩ fun _ => trivial

/-! ## Operations on entries -/

/-- Whether something that can be said of operations holds of what has a result already, of steps on
entries, of one operation after another, and of what is done under a lock.  It need not hold of a
step that consults an eviction hook, as long as it holds of telling that hook of an entry. -/
structure ComposesPasses (good : (α : Type) → Operation n K V α → Prop) : Prop where
  done : ∀ {α : Type} (result : α), good α (.done result)
  step : ∀ step : Step n K V, step.OnEntries → ¬ step.ConsultsEviction → good _ (.act step .done)
  notify : ∀ map entry, good _ (notify map entry)
  bind : ∀ {α β : Type} {operation : Operation n K V α} {next : α → Operation n K V β},
    good α operation → (∀ result, good β (next result)) → good β (operation.bind next)
  guarded : ∀ {α : Type} (map : Fin n) {body : Operation n K V α},
    good α body → good α (guarded map body)

namespace ComposesPasses

variable {good : (α : Type) → Operation n K V α → Prop}

theorem onMap (h : ComposesPasses good) (map : Fin n) (act : MapAct K V)
    (hact : act.OnEntries) : good _ (onMap map act) :=
  h.step (.act (.map map act)) hact id

theorem now (h : ComposesPasses good) : good _ now :=
  h.step (.act (.clock .read)) trivial id

theorem log (h : ComposesPasses good) (map : Fin n) (record : LogRecord) :
    good _ (log map record) :=
  h.step (.act (.log map record)) trivial id

theorem get (h : ComposesPasses good) (map : Fin n) (key : K) : good _ (get (V := V) map key) :=
  h.guarded map (h.bind h.now fun _ => h.onMap map (.read key _) trivial)

theorem remove (h : ComposesPasses good) (map : Fin n) (key : K) :
    good _ (remove (V := V) map key) :=
  h.guarded map (h.onMap map (.remove key) trivial)

theorem empty (h : ComposesPasses good) (map : Fin n) :
    good _ (Operation.guarded map (clear map)) :=
  h.guarded map (h.onMap map .clear trivial)

/-! ### The pass -/

theorem screen (h : ComposesPasses good) (map : Fin n) (entries : List (Entry K V)) :
    good _ (screen map entries) := by
  induction entries with
  | nil => exact h.done _
  | cons entry rest ih =>
      refine h.bind (h.step (.consult map (.screening entry)) trivial id) fun verdict => ?_
      cases verdict with
      | error panic => exact h.done _
      | ok valid =>
          refine h.bind ih fun accepted => ?_
          cases accepted <;> exact h.done _

theorem notifyAll (h : ComposesPasses good) (map : Fin n) (entries : List (Entry K V)) :
    good _ (notifyAll map entries) := by
  induction entries with
  | nil => exact h.done _
  | cons entry rest ih => exact h.bind (h.notify map entry) fun _ => h.bind ih fun _ => h.done _

theorem removeAll (h : ComposesPasses good) (map : Fin n) (entries : List (Entry K V)) :
    good _ (removeAll map entries) := by
  induction entries with
  | nil => exact h.done _
  | cons entry rest ih =>
      exact h.bind (h.onMap map (.removeIfSame _ _) trivial) fun _ => h.bind ih fun _ => h.done _

theorem evict (h : ComposesPasses good) (map : Fin n) (candidates : List (Entry K V)) :
    good _ (evict map candidates) :=
  h.bind (h.notifyAll map _) fun _ => h.bind (h.removeAll map _) fun _ => h.log map _

/-- A pass is done under the lock from beginning to end. -/
theorem exists_pass_body (map : Fin n) :
    ∃ body : Operation n K V (Outcome Unit), Operation.pass map = Operation.guarded map body ∧
      ∀ {good : (α : Type) → Operation n K V α → Prop}, ComposesPasses good → good _ body := by
  refine ⟨_, rfl, fun {good} h => ?_⟩
  refine h.bind (h.onMap map .size trivial) fun count => ?_
  refine h.bind (h.log map _) fun _ => ?_
  refine h.bind (h.onMap map .size trivial) fun size => ?_
  split
  · exact h.done _
  refine h.bind h.now fun now => ?_
  refine h.bind (h.onMap map (.scan now) trivial) fun found => ?_
  refine h.bind (h.screen map found) fun screened => ?_
  rcases screened with panic | _ | ⟨first, others⟩
  · -- a screening has panicked, or nothing has been let through
    exact h.done _
  · exact h.done _
  · exact h.bind (h.evict map _) fun _ => h.done _

theorem pass (h : ComposesPasses good) (map : Fin n) : good _ (pass map) := by
  obtain ⟨body, heq, hbody⟩ := exists_pass_body (K := K) (V := V) map
  exact heq ▸ h.guarded map (hbody h)

end ComposesPasses

/-- Whether something that can be said of operations holds of what has a result already, of steps on
entries, of one operation after another, and of what is done under a lock. -/
structure ComposesEntries (good : (α : Type) → Operation n K V α → Prop) : Prop where
  done : ∀ {α : Type} (result : α), good α (.done result)
  step : ∀ step : Step n K V, step.OnEntries → good _ (.act step .done)
  bind : ∀ {α β : Type} {operation : Operation n K V α} {next : α → Operation n K V β},
    good α operation → (∀ result, good β (next result)) → good β (operation.bind next)
  guarded : ∀ {α : Type} (map : Fin n) {body : Operation n K V α},
    good α body → good α (guarded map body)

namespace ComposesEntries

variable {good : (α : Type) → Operation n K V α → Prop}

theorem passes (h : ComposesEntries good) : ComposesPasses good where
  done := h.done
  step step hstep _ := h.step step hstep
  notify map entry := by
    refine h.bind (h.step (.consult map _) trivial) fun verdict => ?_
    cases verdict with
    | ok confirmed => exact h.done _
    | error panic => exact h.bind (h.step (.act (.log map _)) trivial) fun _ => h.done _
  bind := h.bind
  guarded := h.guarded

theorem now (h : ComposesEntries good) : good _ now := h.passes.now

theorem log (h : ComposesEntries good) (map : Fin n) (record : LogRecord) :
    good _ (log map record) :=
  h.passes.log map record

theorem get (h : ComposesEntries good) (map : Fin n) (key : K) : good _ (get (V := V) map key) :=
  h.passes.get map key

theorem remove (h : ComposesEntries good) (map : Fin n) (key : K) :
    good _ (remove (V := V) map key) :=
  h.passes.remove map key

theorem empty (h : ComposesEntries good) (map : Fin n) :
    good _ (Operation.guarded map (clear map)) :=
  h.passes.empty map

theorem pass (h : ComposesEntries good) (map : Fin n) : good _ (pass map) := h.passes.pass map

end ComposesEntries

/-! ## What is done about jobs and holds -/

/-- Whether something that can be said of operations holds of what has a result already, of steps of
service outside of lifecycle calls, of one operation after another, and of scheduled passes. -/
structure ComposesRuns (good : (α : Type) → Operation n K V α → Prop) : Prop where
  done : ∀ {α : Type} (result : α), good α (.done result)
  step : ∀ step : Step n K V, step.OfService → step.OutsideCalls → good _ (.act step .done)
  bind : ∀ {α β : Type} {operation : Operation n K V α} {next : α → Operation n K V β},
    good α operation → (∀ result, good β (next result)) → good β (operation.bind next)
  scheduledPass : ∀ map, good _ (scheduledPass map)

namespace ComposesRuns

variable {good : (α : Type) → Operation n K V α → Prop}

theorem onMap (h : ComposesRuns good) (map : Fin n) (act : MapAct K V)
    (hact : act.OfService) (hcalls : act.OutsideCalls) : good _ (onMap map act) :=
  h.step (.act (.map map act)) hact hcalls

theorem onClock (h : ComposesRuns good) (act : ClockAct) : good _ (onClock act) :=
  h.step (.act (.clock act)) trivial trivial

theorem onScheduler (h : ComposesRuns good) (act : SchedulerAct n) :
    good _ (onScheduler act) :=
  h.step (.act (.scheduler act)) trivial trivial

theorem sleep (h : ComposesRuns good) (ns : Nat) : good _ (sleep ns) :=
  h.step (.act (.sleep ns)) trivial trivial

theorem release (h : ComposesRuns good) {retirement : Retirement n K V}
    (hretirement : ∀ map, good _ (retirement map)) (map : Fin n) :
    good _ (release retirement map) := by
  refine h.bind (h.onMap map .letGo trivial trivial) fun last => ?_
  split
  · exact hretirement map
  · exact h.done _

theorem task (h : ComposesRuns good) {retirement : Retirement n K V}
    (hretirement : ∀ map, good _ (retirement map)) (map : Fin n) :
    good _ (task retirement map) := by
  refine h.bind (h.onMap map .hold trivial trivial) fun held => ?_
  split
  · exact h.bind (h.scheduledPass map) fun _ => h.release hretirement map
  · exact h.done _

theorem runOnce (h : ComposesRuns good) {retirement : Retirement n K V}
    (hretirement : ∀ map, good _ (retirement map)) (id : Nat) :
    good _ (runOnce retirement id) := by
  refine h.bind (h.onScheduler (.begin id)) fun beginning => ?_
  cases beginning with
  | noJob => exact h.done _
  | busy => exact h.done _
  | begun owner =>
      refine h.bind (h.task hretirement owner) fun _ => ?_
      exact h.bind (h.onScheduler (.finish id)) fun _ => h.done _

theorem cancel (h : ComposesRuns good) {retirement : Retirement n K V}
    (hretirement : ∀ map, good _ (retirement map)) (map : Fin n) (id : Nat) :
    good _ (cancel retirement map id) := by
  refine h.bind (h.onScheduler (.cancel map id)) fun runs => ?_
  split
  · exact h.bind (h.runOnce hretirement id) fun _ => h.done _
  · exact h.done _

theorem retire (h : ComposesRuns good) (map : Fin n) : good _ (retire map) := by
  refine h.bind (h.onMap map .takeJob trivial trivial) fun job => ?_
  cases job with
  | none => exact h.done _
  | some id => exact h.cancel (fun _ => h.done _) map id

theorem runJob (h : ComposesRuns good) (id : Nat) : good _ (runJob id) := h.runOnce h.retire id

theorem awaitSize (h : ComposesRuns good) (map : Fin n) (count patience : Nat) :
    good _ (awaitSize map count patience) := by
  induction patience with
  | zero => exact h.bind (h.onMap map .size trivial trivial) fun _ => h.done _
  | succ patience ih =>
      refine h.bind (h.onMap map .size trivial trivial) fun size => ?_
      split
      · exact h.done _
      · exact h.bind (h.sleep _) fun _ => ih

theorem runReady (h : ComposesRuns good) (count id : Nat) : good _ (runReady count id) := by
  induction count generalizing id with
  | zero => exact h.done _
  | succ count ih =>
      refine h.bind (h.onScheduler (.isReady id)) fun ready => ?_
      split
      · exact h.bind (h.runJob id) fun _ => h.bind (ih (id + 1)) fun _ => h.done _
      · exact ih (id + 1)

theorem dropHandle (h : ComposesRuns good) (map : Fin n) : good _ (dropHandle map) := by
  refine h.bind (h.onMap map .takeHandle trivial trivial) fun taken => ?_
  split
  · exact h.bind (h.release h.retire map) fun _ => h.done _
  · exact h.done _

/-- A start consists of runs and of steps of service. -/
theorem start (h : ComposesRuns good) {map : Fin n}
    (hservice : ∀ act : MapAct K V, act.OfService → good _ (Operation.onMap map act))
    (interval : Duration) : good _ (start map interval) := by
  refine h.bind (hservice (.shift ..) trivial) fun shifted => ?_
  cases shifted with
  | error error => exact h.done _
  | ok _ =>
      refine h.bind (h.onScheduler .isShutdown) fun shut => ?_
      -- the scheduler has been shut down, so the phase goes back
      split
      · exact h.bind (hservice (.setPhase _) trivial) fun _ => h.done _
      refine h.bind (h.onScheduler (.schedule ..)) fun scheduled => ?_
      cases scheduled with
      | error error => exact h.bind (hservice (.setPhase _) trivial) fun _ => h.done _
      | ok accepted =>
          have hrest : good _ (do
              keepJob map accepted.id
              setPhase map .started
              return .ok () : Operation n K V (Except Error Unit)) := by
            refine h.bind (hservice (.keepJob _) trivial) fun _ => ?_
            exact h.bind (hservice (.setPhase _) trivial) fun _ => h.done _
          simp only [bind_eq]
          split
          · exact h.bind (h.runJob accepted.id) fun _ => hrest
          · exact hrest

/-- A stop consists of runs, of steps of service and of emptying the store. -/
theorem stop (h : ComposesRuns good) {map : Fin n}
    (hservice : ∀ act : MapAct K V, act.OfService → good _ (Operation.onMap map act))
    (hempty : good _ (guarded map (clear map))) : good _ (stop map) := by
  refine h.bind (hservice (.shift ..) trivial) fun shifted => ?_
  cases shifted with
  | error error => exact h.done _
  | ok _ =>
      -- the job is taken out, cancelled if there is one, and then the store is emptied
      refine h.bind (hservice .takeJob trivial) fun job => ?_
      have hrest : good _ (do
          guarded map (clear map)
          setPhase map .stopped
          return .ok () : Operation n K V (Except Error Unit)) := by
        refine h.bind hempty fun _ => ?_
        exact h.bind (hservice (.setPhase _) trivial) fun _ => h.done _
      cases job with
      | none => exact hrest
      | some id => exact h.bind (h.cancel h.retire map id) fun _ => hrest

theorem serveMap (h : ComposesRuns good) (settings : Settings n S K V) (map : Fin n)
    {request : MapRequest K V} (hrequest : request.IsPlain) :
    good _ (serveMap settings map request) := by
  cases request with
  | get | put | putIfAbsent | remove | purge | start | stop => exact hrequest.elim
  | size => exact h.bind (h.onMap map .size trivial trivial) fun _ => h.done _
  | isEmpty => exact h.bind (h.onMap map .size trivial trivial) fun _ => h.done _
  | phase => exact h.bind (h.onMap map .readPhase trivial trivial) fun _ => h.done _
  | name => exact h.done _
  | interval => exact h.done _
  | isSchedulerShutdown => exact h.bind (h.onScheduler .isShutdown) fun _ => h.done _
  | describe layout =>
      refine h.bind (h.onMap map .size trivial trivial) fun _ => ?_
      exact h.bind (h.onMap map .readPhase trivial trivial) fun _ => h.done _
  | addHandle => exact h.bind (h.onMap map .addHandle trivial trivial) fun _ => h.done _
  | awaitSize count => exact h.bind (h.awaitSize map count _) fun _ => h.done _

/-- Whatever is asked for, it is enough if that holds of what is asked of a map. -/
theorem serve (h : ComposesRuns good) (settings : Settings n S K V) (map : Fin n)
    (request : Request K V)
    (hmap : ∀ asked, request = .map asked → good _ (Operation.serveMap settings map asked)) :
    good _ (serve settings map request) := by
  cases request with
  | map asked =>
      refine h.bind ?_ fun _ => h.done _
      -- the request has a use of the map until it is over, if there is a handle
      refine h.bind (h.onMap map .borrow trivial trivial) fun borrowed => ?_
      split
      · refine h.bind (hmap asked rfl) fun _ => ?_
        exact h.bind (h.release h.retire map) fun _ => h.done _
      · exact h.done _
  | dropHandle => exact h.bind (h.dropHandle map) fun _ => h.done _
  | advance ns => exact h.bind (h.onClock (.advance ns)) fun _ => h.done _
  | rewind ns => exact h.bind (h.onClock (.rewind ns)) fun _ => h.done _
  | sleep milliseconds => exact h.bind (h.sleep _) fun _ => h.done _
  | shutdown => exact h.bind (h.onScheduler .shutdown) fun _ => h.done _
  | refuse error => exact h.bind (h.onScheduler (.refuse error)) fun _ => h.done _
  | runJob id => exact h.bind (h.runJob id) fun _ => h.done _
  | tick =>
      refine h.bind ?_ fun _ => h.done _
      exact h.bind (h.onScheduler .jobCount) fun count => h.runReady count 0

end ComposesRuns

/-- Whether something that can be said of operations holds of what runs and holds are composed of,
of operations on entries, and of the two lifecycle calls. -/
structure ComposesCalls (good : (α : Type) → Operation n K V α → Prop) : Prop
    extends ComposesRuns good where
  get : ∀ map key, good _ (get map key)
  put : ∀ map key value timeout, good _ (put map key value timeout)
  putIfAbsent : ∀ map key value timeout, good _ (putIfAbsent map key value timeout)
  remove : ∀ map key, good _ (remove map key)
  pass : ∀ map, good _ (pass map)
  start : ∀ map interval, good _ (start map interval)
  stop : ∀ map, good _ (stop map)

namespace ComposesCalls

variable {good : (α : Type) → Operation n K V α → Prop}

theorem serveMap (h : ComposesCalls good) (settings : Settings n S K V) (map : Fin n)
    (request : MapRequest K V) : good _ (serveMap settings map request) := by
  by_cases hrequest : request.IsPlain
  · exact h.toComposesRuns.serveMap settings map hrequest
  cases request with
  | get key => exact h.bind (h.get map key) fun _ => h.done _
  | put key value timeout => exact h.bind (h.put map key value timeout) fun _ => h.done _
  | putIfAbsent key value timeout =>
      exact h.bind (h.putIfAbsent map key value timeout) fun _ => h.done _
  | remove key => exact h.bind (h.remove map key) fun _ => h.done _
  | purge => exact h.bind (h.pass map) fun _ => h.done _
  | start => exact h.bind (h.start map _) fun _ => h.done _
  | stop => exact h.bind (h.stop map) fun _ => h.done _
  | size | isEmpty | phase | name | interval | isSchedulerShutdown | describe | addHandle
  | awaitSize => exact absurd trivial hrequest

theorem serve (h : ComposesCalls good) (settings : Settings n S K V) (map : Fin n)
    (request : Request K V) : good _ (serve settings map request) :=
  h.toComposesRuns.serve settings map request fun asked _ => h.serveMap settings map asked

end ComposesCalls

/-! ## What is done about the lifecycle -/

/-- Whether something that can be said of operations holds of what has a result already, of steps of
service, of one operation after another, and of those operations on entries that leave it to passes
to take any out. -/
structure ComposesQuiet (good : (α : Type) → Operation n K V α → Prop) : Prop where
  done : ∀ {α : Type} (result : α), good α (.done result)
  step : ∀ step : Step n K V, step.OfService → good _ (.act step .done)
  bind : ∀ {α β : Type} {operation : Operation n K V α} {next : α → Operation n K V β},
    good α operation → (∀ result, good β (next result)) → good β (operation.bind next)
  get : ∀ map key, good _ (get map key)
  pass : ∀ map, good _ (pass map)

namespace ComposesQuiet

variable {good : (α : Type) → Operation n K V α → Prop}

theorem onMap (h : ComposesQuiet good) (map : Fin n) (act : MapAct K V)
    (hact : act.OfService) : good _ (onMap map act) :=
  h.step (.act (.map map act)) hact

theorem scheduledPass (h : ComposesQuiet good) (map : Fin n) : good _ (scheduledPass map) := by
  refine h.bind (h.onMap map .readPhase trivial) fun phase => ?_
  split
  · refine h.bind (h.step (.act (.log map .runBegins)) trivial) fun _ => ?_
    refine h.bind (h.pass map) fun outcome => ?_
    cases outcome with
    | ok _ => exact h.done _
    | error panic => exact h.step (.act (.log map (.passPanicked panic))) trivial
  · exact h.step (.act (.log map .runNotAllowed)) trivial

theorem runs (h : ComposesQuiet good) : ComposesRuns good where
  done := h.done
  step step hstep _ := h.step step hstep
  bind := h.bind
  scheduledPass := h.scheduledPass

theorem start (h : ComposesQuiet good) (map : Fin n) (interval : Duration) :
    good _ (start map interval) :=
  h.runs.start (h.onMap map) interval

theorem serveMap (h : ComposesQuiet good) (settings : Settings n S K V) (map : Fin n)
    {request : MapRequest K V} (hrequest : request.IsQuiet) :
    good _ (serveMap settings map request) := by
  by_cases hplain : request.IsPlain
  · exact h.runs.serveMap settings map hplain
  cases request with
  | get key => exact h.bind (h.get map key) fun _ => h.done _
  | purge => exact h.bind (h.pass map) fun _ => h.done _
  | start => exact h.bind (h.start map _) fun _ => h.done _
  | put | putIfAbsent | remove | stop => exact hrequest.elim
  | size | isEmpty | phase | name | interval | isSchedulerShutdown | describe | addHandle
  | awaitSize => exact absurd trivial hplain

end ComposesQuiet

/-! ## Everything that is done for a request -/

/-- Whether something that can be said of operations holds of what has a result already, of steps of
service, of one operation after another, and of all operations on entries. -/
structure ComposesService (good : (α : Type) → Operation n K V α → Prop) : Prop
    extends ComposesQuiet good where
  put : ∀ map key value timeout, good _ (put map key value timeout)
  putIfAbsent : ∀ map key value timeout, good _ (putIfAbsent map key value timeout)
  remove : ∀ map key, good _ (remove map key)
  empty : ∀ map, good _ (guarded map (clear map))

namespace ComposesService

variable {good : (α : Type) → Operation n K V α → Prop}

theorem stop (h : ComposesService good) (map : Fin n) : good _ (stop map) :=
  h.runs.stop (h.onMap map) (h.empty map)

theorem calls (h : ComposesService good) : ComposesCalls good where
  toComposesRuns := h.runs
  get := h.get
  put := h.put
  putIfAbsent := h.putIfAbsent
  remove := h.remove
  pass := h.pass
  start := h.start
  stop := h.stop

theorem serveMap (h : ComposesService good) (settings : Settings n S K V)
    (map : Fin n) (request : MapRequest K V) : good _ (serveMap settings map request) :=
  h.calls.serveMap settings map request

theorem serve (h : ComposesService good) (settings : Settings n S K V)
    (map : Fin n) (request : Request K V) : good _ (serve settings map request) :=
  h.calls.serve settings map request

end ComposesService

/-! ## Plain steps -/

/-- Whether something that can be said of operations holds of what has a result already, of plain
steps, of one operation after another, and of what is done under a lock. -/
structure Composes (good : (α : Type) → Operation n K V α → Prop) : Prop where
  done : ∀ {α : Type} (result : α), good α (.done result)
  step : ∀ step : Step n K V, step.IsPlain → good _ (.act step .done)
  bind : ∀ {α β : Type} {operation : Operation n K V α} {next : α → Operation n K V β},
    good α operation → (∀ result, good β (next result)) → good β (operation.bind next)
  guarded : ∀ {α : Type} (map : Fin n) {body : Operation n K V α},
    good α body → good α (guarded map body)

namespace Composes

variable {good : (α : Type) → Operation n K V α → Prop}

/-- Whether something holds of the two operations that place entries. -/
structure Places (good : (α : Type) → Operation n K V α → Prop) : Prop where
  put : ∀ map key value timeout, good _ (put map key value timeout)
  putIfAbsent : ∀ map key value timeout, good _ (putIfAbsent map key value timeout)

theorem onMap (h : Composes good) (map : Fin n) (act : MapAct K V) (hact : act.IsPlain) :
    good _ (onMap map act) :=
  h.step (.act (.map map act)) hact

theorem onClock (h : Composes good) (act : ClockAct) : good _ (onClock act) :=
  h.step (.act (.clock act)) trivial

theorem entries (h : Composes good) : ComposesEntries good :=
  ⟨h.done, fun step hstep => h.step step hstep.isPlain, h.bind, h.guarded⟩

theorem pass (h : Composes good) (map : Fin n) : good _ (pass map) := h.entries.pass map

theorem service (h : Composes good) (hplaces : Places good) : ComposesService good where
  done := h.done
  step step hstep := h.step step hstep.isPlain
  bind := h.bind
  get := h.entries.get
  put := hplaces.put
  putIfAbsent := hplaces.putIfAbsent
  remove := h.entries.remove
  empty := h.entries.empty
  pass := h.pass

theorem serveMap (h : Composes good) (hplaces : Places good) (settings : Settings n S K V)
    (map : Fin n) (request : MapRequest K V) : good _ (serveMap settings map request) :=
  (h.service hplaces).serveMap settings map request

theorem serve (h : Composes good) (hplaces : Places good) (settings : Settings n S K V)
    (map : Fin n) (request : Request K V) : good _ (serve settings map request) :=
  (h.service hplaces).serve settings map request

end Composes

end Operation

end ExpiringMap
