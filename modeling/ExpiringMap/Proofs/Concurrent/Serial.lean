import ExpiringMap.Proofs.Concurrent.Alike
import ExpiringMap.Proofs.Concurrent.Inside

/-!
# Clients one after the other

While a client holds the lock of the map, nobody else gets further than to the lock, and nothing
changes but by its own deeds, except for the clock.  So an execution is as good as one in which
the clients are served one after the other, in the order in which they entered the free lock, and
each is shown the readings of the clock that it was shown (`serialized_of_execution`).

The invariant that carries the induction tells two kinds of moments apart.  While the lock is free
all clients are idle, and the deployment is what serving has left (`Quiet`).  While somebody holds
it, what this client still has to do would leave, whatever the clock is going to show, what serving
its whole request would (`Busy`).
-/

namespace ExpiringMap

variable {n : Nat} {S K V : Type}

/-- A request that a client has made, with what the clock showed meanwhile and what the request
has come to. -/
structure Service (K V : Type) where
  thread : ThreadId
  request : MapRequest K V
  shown : List Instant
  outcome : Outcome (Answer V)

/-- The requests of a single client. -/
def Service.of (thread : ThreadId) (services : List (Service K V)) : List (Service K V) :=
  services.filter fun service => decide (service.thread = thread)

@[simp] theorem Service.of_append (thread : ThreadId) (earlier later : List (Service K V)) :
    of thread (earlier ++ later) = of thread earlier ++ of thread later :=
  List.filter_append ..

@[simp] theorem Service.of_singleton (thread : ThreadId) (service : Service K V) :
    of thread [service] = if service.thread = thread then [service] else [] := by
  by_cases h : service.thread = thread <;> simp [of, h]

variable [DecidableEq K]

/-- Requests are served one after the other with nobody else at work, each shown the readings of
the clock that are laid down for it, and no others. -/
inductive Plan.Serves (plan : Plan n S K V) (depth : Nat) (map : Fin n) :
    Deployment n S K V → List (Service K V) → Deployment n S K V → Prop
  | start (deployment : Deployment n S K V) : Serves plan depth map deployment [] deployment
  | serve {first deployment last : Deployment n S K V} {services : List (Service K V)}
      {outcome : Outcome (Answer V)} (thread : ThreadId) (request : MapRequest K V)
      (shown : List Instant) :
      Serves plan depth map first services deployment →
      plan.run depth (Operation.serveMap (plan.settings map) map request)
        (deployment.foreseeing shown) = (outcome, last) →
      (∀ foreseen, (plan.run depth (Operation.serveMap (plan.settings map) map request)
        (deployment.foreseeing (shown ++ foreseen))).2.clock.foreseen = foreseen) →
      Serves plan depth map first (services ++ [⟨thread, request, shown, outcome⟩]) last

section Invariant

variable (plan : Plan n S K V) (depth : Nat) (map : Fin n)

/-- Whether a client is outside the lock, given its requests and those that have been served. -/
inductive Client.Idle (client : Client n S K V) (requests : List (MapRequest K V))
    (served : List (Service K V)) : Prop
  /-- The client is at rest. -/
  | rests (outcomes : List (Outcome (Answer V))) :
      client.current = .done outcomes →
      client.outcomes ++ outcomes = served.map Service.outcome →
      served.map Service.request ++ client.waiting = requests → Idle client requests served
  /-- The client is about to take the lock. -/
  | comes (request : MapRequest K V) :
      client.current = plan.access depth map request →
      client.outcomes = served.map Service.outcome →
      served.map Service.request ++ request :: client.waiting = requests →
      Idle client requests served

/-- Whether what a routine still has to do, when it has come to `current`, comes to what all of it
comes to if it is run by itself, whatever the clock is going to show; `shown` is what the clock has
shown so far. -/
def Plan.Replays (routine : Routine n S K V) (begun : Deployment n S K V) (shown : List Instant)
    (current : Routine n S K V) (deployment : Deployment n S K V) : Prop :=
  ∀ foreseen, ∃ other : Deployment n S K V, other.Alike deployment ∧
    other.clock.foreseen = foreseen ∧
    routine.run plan (begun.foreseeing (shown ++ foreseen)) = current.run plan other

/-- Whether a client holds the lock so many times for a request, given the deployment in which the
request was begun, the deployment as it is, and what the clock has shown in between. -/
structure Client.Works (client : Client n S K V) (requests : List (MapRequest K V))
    (served : List (Service K V)) (guards : Nat) (begun deployment : Deployment n S K V)
    (shown : List Instant) (request : MapRequest K V) : Prop where
  inside : plan.Inside map guards client.current
  outcomes : client.outcomes = served.map Service.outcome
  requests : served.map Service.request ++ request :: client.waiting = requests
  replays : plan.Replays (plan.access depth map request) begun shown client.current deployment

variable (requests : ThreadId → List (MapRequest K V)) (history : List (Doing n S K V))
  (scene : Scene n S K V) (services : List (Service K V)) (serial : Deployment n S K V)

/-- Whether nobody holds the lock, and the scene is what serving has left. -/
structure Quiet : Prop where
  free : scene.stage.lock map = .free
  alike : serial.Alike scene.stage.deployment
  order : services.map Service.thread = acquisitions map history
  showings : ∀ thread,
    (Service.of thread services).flatMap Service.shown = shownTo thread history
  idle : ∀ thread, (scene.clients thread).Idle plan depth map (requests thread)
    (Service.of thread services)

/-- Whether a client holds the lock, and everybody else is idle. -/
structure Busy (owner : ThreadId) (again : Nat) (shown : List Instant)
    (request : MapRequest K V) : Prop where
  held : scene.stage.lock map = .held owner again
  order : services.map Service.thread ++ [owner] = acquisitions map history
  showings : ∀ thread, (Service.of thread services).flatMap Service.shown ++
    (if owner = thread then shown else []) = shownTo thread history
  idle : ∀ thread, thread ≠ owner → (scene.clients thread).Idle plan depth map (requests thread)
    (Service.of thread services)
  works : (scene.clients owner).Works plan depth map (requests owner)
    (Service.of owner services) (again + 1) serial scene.stage.deployment shown request

/-- Whether a scene with its history is as good as one in which requests have been served one
after the other. -/
def Serialized (start : Deployment n S K V) : Prop :=
  ∃ services serial, plan.Serves depth map start services serial ∧
    (Quiet plan depth map requests history scene services serial ∨
      ∃ owner again shown request,
        Busy plan depth map requests history scene services serial owner again shown request)

end Invariant

/-! ## What a deed changes -/

section Deeds

variable {plan : Plan n S K V} {map : Fin n}

theorem Plan.Replays.start {serial deployment : Deployment n S K V}
    (h : serial.Alike deployment) (routine : Routine n S K V) :
    plan.Replays routine serial [] routine deployment :=
  fun foreseen => ⟨serial.foreseeing foreseen, (Deployment.Alike.foreseeing ..).trans h, rfl, rfl⟩

theorem Plan.Replays.step {routine : Routine n S K V} {begun deployment : Deployment n S K V}
    {shown : List Instant} {deed : Deed n S K V} {next : deed.Answer → Routine n S K V}
    (h : plan.Replays routine begun shown (.step deed next) deployment) :
    plan.Replays routine begun (shown ++ deed.shown (plan.perform deed deployment).1)
      (next (plan.perform deed deployment).1) (plan.perform deed deployment).2 := by
  intro foreseen
  obtain ⟨other, halike, hforeseen, hrun⟩ :=
    h (deed.shown (plan.perform deed deployment).1 ++ foreseen)
  obtain ⟨hanswer, hafter, hrest⟩ := halike.perform plan deed hforeseen
  refine ⟨(plan.perform deed other).2, hafter, hrest, ?_⟩
  rw [List.append_assoc, hrun, ← hanswer, Routine.run]

/-- Run with nobody else at work, what a client does for a request is to serve it. -/
theorem run_access (plan : Plan n S K V) (depth : Nat) (map : Fin n) (request : MapRequest K V)
    (deployment : Deployment n S K V) :
    let served := plan.run depth (Operation.serveMap (plan.settings map) map request) deployment
    (plan.access depth map request).run plan deployment = ([served.1], served.2) :=
  (Plan.attains_unfoldOperation (plan.attains_scripts depth) _ _ deployment).trans rfl

/-- A request that has been replayed to its end has been served, and was shown nothing else. -/
theorem Plan.Replays.served {depth : Nat} {request : MapRequest K V}
    {begun deployment : Deployment n S K V} {shown : List Instant}
    {outcomes : List (Outcome (Answer V))}
    (h : plan.Replays (plan.access depth map request) begun shown (.done outcomes) deployment) :
    ∃ outcome after, outcomes = [outcome] ∧ after.Alike deployment ∧
      plan.run depth (Operation.serveMap (plan.settings map) map request)
        (begun.foreseeing shown) = (outcome, after) ∧
      ∀ foreseen, (plan.run depth (Operation.serveMap (plan.settings map) map request)
        (begun.foreseeing (shown ++ foreseen))).2.clock.foreseen = foreseen := by
  have hserve : ∀ foreseen, ∃ outcome after, outcomes = [outcome] ∧ after.Alike deployment ∧
      after.clock.foreseen = foreseen ∧
      plan.run depth (Operation.serveMap (plan.settings map) map request)
        (begun.foreseeing (shown ++ foreseen)) = (outcome, after) := by
    intro foreseen
    obtain ⟨after, halike, hforeseen, hrun⟩ := h foreseen
    simp only [run_access, Routine.run, Prod.mk.injEq] at hrun
    exact ⟨_, after, hrun.1.symm, halike, hforeseen, Prod.ext rfl hrun.2⟩
  -- without readings to come this is what is served, and with them they are left over
  obtain ⟨outcome, after, heq, halike, -, hserved⟩ := hserve []
  rw [List.append_nil] at hserved
  refine ⟨outcome, after, heq, halike, hserved, fun foreseen => ?_⟩
  obtain ⟨_, _, -, -, hforeseen, hrun⟩ := hserve foreseen
  rw [hrun, hforeseen]

variable (stage : Stage n S K V) (thread : ThreadId)

theorem lock_perform_lock (hexcludes : (plan.settings map).locking.excludes = true) :
    (stage.perform plan thread (.act (.map map .lock))).2.lock map =
      (stage.lock map).enter thread := by
  simp only [Stage.perform, Stage.lock, Stage.locksAfter, hexcludes, if_true, vector_get_set]

theorem lock_perform_unlock :
    (stage.perform plan thread (.act (.map map .unlock))).2.lock map = (stage.lock map).leave := by
  simp only [Stage.perform, Stage.lock, Stage.locksAfter, vector_get_set, if_true]

theorem lock_perform_other {deed : Deed n S K V} (hlock : deed ≠ .act (.map map .lock))
    (hunlock : deed ≠ .act (.map map .unlock)) :
    (stage.perform plan thread deed).2.lock map = stage.lock map := by
  simp only [Stage.perform, Stage.lock, Stage.locksAfter]
  split
  · next other =>
    have hne : map ≠ other := fun heq => hlock (heq ▸ rfl)
    split
    · rw [vector_get_set, if_neg hne]
    · rfl
  · next other =>
    have hne : map ≠ other := fun heq => hunlock (heq ▸ rfl)
    rw [vector_get_set, if_neg hne]
  · rfl

omit [DecidableEq K] in
/-- Nobody enters the free lock but by taking it. -/
theorem acquisitions_other {doing : Doing n S K V}
    (hlock : doing.deed ≠ .act (.map map .lock)) : acquisitions map [doing] = [] := by
  have hnone : doing.entered? map = none := by
    unfold Doing.entered?
    split
    · next thread other _ locks =>
      have hne : ¬ (other = map ∧ locks.get map = .free) := fun h => hlock (h.1 ▸ rfl)
      exact if_neg hne
    · rfl
  simp [acquisitions, hnone]

omit [DecidableEq K] in
/-- Nobody enters a free lock that is not free. -/
theorem acquisitions_held {doing : Doing n S K V} (hheld : doing.locks.get map ≠ .free) :
    acquisitions map [doing] = [] := by
  have hnone : doing.entered? map = none := by
    unfold Doing.entered?
    split
    · exact if_neg fun h => hheld h.2
    · rfl
  simp [acquisitions, hnone]

end Deeds

/-! ## Moves -/

section Moves

variable {plan : Plan n S K V} {depth : Nat} {map : Fin n}
  {requests : ThreadId → List (MapRequest K V)} {history : List (Doing n S K V)}
  {scene : Scene n S K V} {services : List (Service K V)} {serial : Deployment n S K V}

/-- What a client does for any of its requests begins with taking the lock. -/
def Plan.LocksFirst (plan : Plan n S K V) (depth : Nat) (map : Fin n)
    (requests : List (MapRequest K V)) : Prop :=
  ∀ request ∈ requests, ∃ next : Unit → Routine n S K V,
    plan.access depth map request = .step (.act (.map map .lock)) next ∧
      plan.Inside map 1 (next ())

theorem Client.Idle.begins {client : Client n S K V} {requests : List (MapRequest K V)}
    {served : List (Service K V)} (h : client.Idle plan depth map requests served)
    (hfirst : plan.LocksFirst depth map requests) {outcomes : List (Outcome (Answer V))}
    {request : MapRequest K V} {rest : List (MapRequest K V)}
    (hcurrent : client.current = .done outcomes) (hwaiting : client.waiting = request :: rest) :
    Client.Idle plan depth map
      { current := plan.access depth map request, waiting := rest,
        outcomes := client.outcomes ++ outcomes } requests served := by
  cases h with
  -- the client has come to the end of a request and goes on with the next
  | rests results hdone houtcomes hrequests =>
      obtain rfl := Routine.done.inj (hdone.symm.trans hcurrent)
      exact .comes request rfl houtcomes (hwaiting ▸ hrequests)
  | comes other haccess houtcomes hrequests =>
      obtain ⟨next, heq, -⟩ := hfirst other (by simp [← hrequests])
      rw [hcurrent, heq] at haccess
      exact nomatch haccess

/-- An idle client that does a deed takes the lock for its next request. -/
theorem Client.Idle.of_step {client : Client n S K V} {requests : List (MapRequest K V)}
    {served : List (Service K V)} (h : client.Idle plan depth map requests served)
    (hfirst : plan.LocksFirst depth map requests) {deed : Deed n S K V}
    {next : deed.Answer → Routine n S K V} (hcurrent : client.current = .step deed next) :
    ∃ (request : MapRequest K V) (rest : Unit → Routine n S K V),
      Routine.step deed next = .step (.act (.map map .lock)) rest ∧
        plan.access depth map request = .step (.act (.map map .lock)) rest ∧
        plan.Inside map 1 (rest ()) ∧ client.outcomes = served.map Service.outcome ∧
        served.map Service.request ++ request :: client.waiting = requests := by
  cases h with
  | rests results hdone _ _ =>
      rw [hcurrent] at hdone
      exact nomatch hdone
  -- the first step of an access takes the lock
  | comes request haccess houtcomes hrequests =>
      obtain ⟨rest, heq, hinside⟩ := hfirst request (by simp [← hrequests])
      exact ⟨request, rest, hcurrent ▸ haccess.trans heq, heq, hinside, houtcomes, hrequests⟩

variable (hfirst : ∀ thread, plan.LocksFirst depth map (requests thread))

include hfirst

theorem Quiet.begins (h : Quiet plan depth map requests history scene services serial)
    {thread : ThreadId} {outcomes : List (Outcome (Answer V))} {request : MapRequest K V}
    {rest : List (MapRequest K V)} (hcurrent : (scene.clients thread).current = .done outcomes)
    (hwaiting : (scene.clients thread).waiting = request :: rest) :
    Quiet plan depth map requests history
      (scene.setClient thread
        { current := plan.access depth map request
          waiting := rest
          outcomes := (scene.clients thread).outcomes ++ outcomes }) services serial where
  free := h.free
  alike := h.alike
  order := h.order
  showings := h.showings
  idle other := by
    -- the client that begins is idle with its next request
    by_cases heq : other = thread
    · subst heq
      rw [Scene.clients_setClient_self]
      exact (h.idle other).begins (hfirst other) hcurrent hwaiting
    · rw [Scene.clients_setClient_of_ne _ heq]
      exact h.idle other

theorem Busy.begins {owner : ThreadId} {again : Nat} {shown : List Instant}
    {served : MapRequest K V}
    (h : Busy plan depth map requests history scene services serial owner again shown served)
    {thread : ThreadId} {outcomes : List (Outcome (Answer V))} {request : MapRequest K V}
    {rest : List (MapRequest K V)} (hcurrent : (scene.clients thread).current = .done outcomes)
    (hwaiting : (scene.clients thread).waiting = request :: rest) :
    Busy plan depth map requests history
      (scene.setClient thread
        { current := plan.access depth map request
          waiting := rest
          outcomes := (scene.clients thread).outcomes ++ outcomes }) services serial owner again
      shown served := by
  -- whoever holds the lock has not come to its end
  have hne : owner ≠ thread := by
    rintro rfl
    have hinside := h.works.inside
    rw [hcurrent] at hinside
    exact nomatch hinside
  refine ⟨h.held, h.order, h.showings, fun other hother => ?_, ?_⟩
  · by_cases heq : other = thread
    · subst heq
      rw [Scene.clients_setClient_self]
      exact (h.idle other hother).begins (hfirst other) hcurrent hwaiting
    · rw [Scene.clients_setClient_of_ne _ heq]
      exact h.idle other hother
  · rw [Scene.clients_setClient_of_ne _ hne]
    exact h.works

/-- A client that does a deed while the lock is free takes the lock. -/
theorem Quiet.does (h : Quiet plan depth map requests history scene services serial)
    (hexcludes : (plan.settings map).locking.excludes = true) {thread : ThreadId}
    {deed : Deed n S K V} {next : deed.Answer → Routine n S K V}
    (hcurrent : (scene.clients thread).current = .step deed next) :
    ∃ request, Busy plan depth map requests
      (history ++ [⟨thread, deed, (scene.stage.perform plan thread deed).1, scene.stage.locks⟩])
      ({ scene with stage := (scene.stage.perform plan thread deed).2 }.setClient thread
        { scene.clients thread with current := next (scene.stage.perform plan thread deed).1 })
      services serial thread 0 [] request := by
  obtain ⟨request, rest, heq, haccess, hinside, houtcomes, hrequests⟩ :=
    (h.idle thread).of_step (hfirst thread) hcurrent
  obtain ⟨rfl, hnext⟩ := Routine.step.inj heq
  obtain rfl := eq_of_heq hnext
  refine ⟨request, ?_, ?_, fun other => ?_, fun other hother => ?_, ?_⟩
  -- the client enters the lock, which was free; it is shown no time, and the others stay idle
  · rw [Scene.stage_setClient, lock_perform_lock _ _ hexcludes, h.free]
    rfl
  · have hfree : scene.stage.locks.get map = .free := h.free
    rw [acquisitions_append, h.order]
    simp [acquisitions, Doing.entered?, hfree]
  · rw [shownTo_append, ← h.showings other]
    simp [shownTo, Deed.shown]
  · rw [Scene.clients_setClient_of_ne _ hother]
    exact h.idle other
  · rw [Scene.clients_setClient_self]
    refine ⟨hinside, houtcomes, hrequests, ?_⟩
    have hreplays : plan.Replays (plan.access depth map request) serial [] _ _ := .start h.alike _
    rw [haccess] at hreplays ⊢
    exact hreplays.step

omit hfirst

/-- Whoever holds the lock goes on, and still holds it. -/
theorem Busy.goes_on {owner : ThreadId} {again later : Nat} {shown : List Instant}
    {request : MapRequest K V}
    (h : Busy plan depth map requests history scene services serial owner again shown request)
    {deed : Deed n S K V} {next : deed.Answer → Routine n S K V}
    (hcurrent : (scene.clients owner).current = .step deed next)
    (hheld : (scene.stage.perform plan owner deed).2.lock map = .held owner later)
    (hinside : plan.Inside map (later + 1) (next (scene.stage.perform plan owner deed).1)) :
    Busy plan depth map requests
      (history ++ [⟨owner, deed, (scene.stage.perform plan owner deed).1, scene.stage.locks⟩])
      ({ scene with stage := (scene.stage.perform plan owner deed).2 }.setClient owner
        { scene.clients owner with current := next (scene.stage.perform plan owner deed).1 })
      services serial owner later
      (shown ++ deed.shown (scene.stage.perform plan owner deed).1) request := by
  -- nobody else has entered the lock, since it was not free
  have hlocks : scene.stage.locks.get map ≠ .free := by
    have hbefore : scene.stage.locks.get map = .held owner again := h.held
    simp [hbefore]
  refine ⟨hheld, ?_, fun other => ?_, fun other hother => ?_, ?_⟩
  · rw [acquisitions_append, acquisitions_held hlocks, List.append_nil, h.order]
  · rw [shownTo_append, ← h.showings other]
    by_cases heq : owner = other <;> simp [shownTo, heq]
  · rw [Scene.clients_setClient_of_ne _ hother]
    exact h.idle other hother
  · rw [Scene.clients_setClient_self]
    have hreplays := h.works.replays
    rw [hcurrent] at hreplays
    exact ⟨hinside, h.works.outcomes, h.works.requests, hreplays.step⟩

/-- Whoever gives the lock back for the last time has served its request. -/
theorem Busy.ends {first : Deployment n S K V} {owner : ThreadId} {shown : List Instant}
    {request : MapRequest K V}
    (h : Busy plan depth map requests history scene services serial owner 0 shown request)
    (hserves : plan.Serves depth map first services serial) {next : Unit → Routine n S K V}
    (hcurrent : (scene.clients owner).current = .step (.act (.map map .unlock)) next)
    (hinside : plan.Inside map 0 (next ())) :
    ∃ services serial, plan.Serves depth map first services serial ∧
      Quiet plan depth map requests
        (history ++ [⟨owner, .act (.map map .unlock), (), scene.stage.locks⟩])
        ({ scene with
            stage := (scene.stage.perform plan owner (.act (.map map .unlock))).2 }.setClient owner
          { scene.clients owner with current := next () })
        services serial := by
  -- the access is replayed from its beginning, up to the unlock that is its last step
  have hreplays := h.works.replays
  rw [hcurrent] at hreplays
  have hafter := hreplays.step
  change plan.Replays _ serial (shown ++ []) (next ()) _ at hafter
  rw [List.append_nil] at hafter
  generalize next () = rest at hinside hafter
  cases hinside with
  -- with the lock given back nothing is left to do, so the request has been served
  | done outcomes =>
      obtain ⟨outcome, after, rfl, halike, hserved, hforeseen⟩ := hafter.served
      refine ⟨_, after, hserves.serve owner request shown hserved hforeseen, ?_, halike, ?_,
        fun thread => ?_, fun thread => ?_⟩
      · rw [Scene.stage_setClient, lock_perform_unlock, h.held]
        rfl
      · rw [acquisitions_append, acquisitions_other (by simp), List.append_nil, ← h.order]
        simp
      · rw [shownTo_append, ← h.showings thread]
        by_cases heq : owner = thread <;> simp [shownTo, heq, Deed.shown]
      · by_cases heq : thread = owner
        · subst heq
          rw [Scene.clients_setClient_self]
          refine .rests _ rfl ?_ ?_
          · simp [h.works.outcomes]
          · simpa using h.works.requests
        · rw [Scene.clients_setClient_of_ne _ heq, Service.of_append, Service.of_singleton,
            if_neg (Ne.symm heq), List.append_nil]
          exact h.idle thread heq

/-- While a client holds the lock, a deed is its own. -/
theorem Busy.does {first : Deployment n S K V} {owner : ThreadId} {again : Nat}
    {shown : List Instant} {request : MapRequest K V}
    (h : Busy plan depth map requests history scene services serial owner again shown request)
    (hserves : plan.Serves depth map first services serial)
    (hfirst : ∀ thread, plan.LocksFirst depth map (requests thread))
    (hexcludes : (plan.settings map).locking.excludes = true) {thread : ThreadId}
    {deed : Deed n S K V} {next : deed.Answer → Routine n S K V}
    (hcurrent : (scene.clients thread).current = .step deed next)
    (hallows : scene.stage.allows plan thread deed = true) :
    Serialized plan depth map requests
      (history ++ [⟨thread, deed, (scene.stage.perform plan thread deed).1, scene.stage.locks⟩])
      ({ scene with stage := (scene.stage.perform plan thread deed).2 }.setClient thread
        { scene.clients thread with current := next (scene.stage.perform plan thread deed).1 })
      first := by
  by_cases heq : thread = owner
  · subst heq
    have hinside := h.works.inside
    rw [hcurrent] at hinside
    cases hinside with
    | locks hnext =>
        -- a hook has made a call that takes the lock again
        have hheld : (scene.stage.perform plan thread (.act (.map map .lock))).2.lock map =
            .held thread (again + 1) := by
          rw [lock_perform_lock _ _ hexcludes, h.held]
          rfl
        have hbusy := h.goes_on hcurrent hheld hnext
        exact ⟨services, serial, hserves, .inr ⟨thread, again + 1, _, request, hbusy⟩⟩
    | unlocks hnext =>
        cases again with
        | zero =>
            obtain ⟨services, serial, hserves, hquiet⟩ := h.ends hserves hcurrent hnext
            exact ⟨services, serial, hserves, .inl hquiet⟩
        | succ again =>
            have hheld : (scene.stage.perform plan thread (.act (.map map .unlock))).2.lock map =
                .held thread again := by
              rw [lock_perform_unlock, h.held]
              rfl
            have hbusy := h.goes_on hcurrent hheld hnext
            exact ⟨services, serial, hserves, .inr ⟨thread, again, _, request, hbusy⟩⟩
    | does hlock hunlock hnext =>
        have hheld : (scene.stage.perform plan thread deed).2.lock map = .held thread again := by
          rw [lock_perform_other _ _ hlock hunlock, h.held]
        have hbusy := h.goes_on hcurrent hheld (hnext scene.stage.deployment)
        exact ⟨services, serial, hserves, .inr ⟨thread, again, _, request, hbusy⟩⟩
  · -- anybody else would have to get into the lock
    obtain ⟨_, _, hstep, _⟩ := (h.idle thread heq).of_step (hfirst thread) hcurrent
    obtain ⟨rfl, -⟩ := Routine.step.inj hstep
    simp [Stage.allows, hexcludes, h.held, Lock.admits, Ne.symm heq] at hallows

omit [DecidableEq K] in
theorem Quiet.clockMoves (h : Quiet plan depth map requests history scene services serial)
    (act : ClockAct) :
    Quiet plan depth map requests history
      { scene with stage.deployment := (scene.stage.deployment.onClock act).2 } services
      serial where
  free := h.free
  alike := h.alike.trans (Deployment.Alike.onClock _ act).symm
  order := h.order
  showings := h.showings
  idle := h.idle

theorem Busy.clockMoves {owner : ThreadId} {again : Nat} {shown : List Instant}
    {request : MapRequest K V}
    (h : Busy plan depth map requests history scene services serial owner again shown request)
    (act : ClockAct) :
    Busy plan depth map requests history
      { scene with stage.deployment := (scene.stage.deployment.onClock act).2 } services serial
      owner again shown request := by
  refine ⟨h.held, h.order, h.showings, h.idle, h.works.inside, h.works.outcomes,
    h.works.requests, fun foreseen => ?_⟩
  obtain ⟨other, halike, hforeseen, hrun⟩ := h.works.replays foreseen
  exact ⟨other, halike.trans (Deployment.Alike.onClock _ act).symm, hforeseen, hrun⟩

/-- Every move leaves the scene as good as one in which requests have been served one after the
other. -/
theorem Serialized.move {first : Deployment n S K V} {last : Scene n S K V}
    {happened : List (Doing n S K V)}
    (h : Serialized plan depth map requests history scene first)
    (hfirst : ∀ thread, plan.LocksFirst depth map (requests thread))
    (hexcludes : (plan.settings map).locking.excludes = true)
    (hmove : plan.Move depth map scene happened last) :
    Serialized plan depth map requests (history ++ happened) last first := by
  obtain ⟨services, serial, hserves, hquiet | ⟨owner, again, shown, request, hbusy⟩⟩ := h
  · -- nobody has the lock, so a step that is taken takes it
    cases hmove with
    | begins thread hcurrent hwaiting =>
        rw [List.append_nil]
        exact ⟨services, serial, hserves, .inl (hquiet.begins hfirst hcurrent hwaiting)⟩
    | does thread hcurrent _ =>
        obtain ⟨request, hbusy⟩ := hquiet.does hfirst hexcludes hcurrent
        exact ⟨services, serial, hserves, .inr ⟨thread, 0, [], request, hbusy⟩⟩
    | clockMoves act =>
        rw [List.append_nil]
        exact ⟨services, serial, hserves, .inl (hquiet.clockMoves act)⟩
  · -- somebody has the lock and goes on with the access, or nothing bears on it
    cases hmove with
    | begins thread hcurrent hwaiting =>
        rw [List.append_nil]
        refine ⟨services, serial, hserves, .inr ⟨owner, again, shown, request, ?_⟩⟩
        exact hbusy.begins hfirst hcurrent hwaiting
    | does thread hcurrent hallows => exact hbusy.does hserves hfirst hexcludes hcurrent hallows
    | clockMoves act =>
        rw [List.append_nil]
        refine ⟨services, serial, hserves, .inr ⟨owner, again, shown, request, ?_⟩⟩
        exact hbusy.clockMoves act

theorem serialized_initial (deployment : Deployment n S K V) :
    Serialized plan depth map requests [] (Scene.initial deployment requests) deployment := by
  refine ⟨[], deployment, .start deployment, .inl ⟨?_, .refl deployment, rfl, fun _ => rfl, ?_⟩⟩
  · exact Vector.getElem_replicate ..
  · exact fun thread => .rests [] rfl rfl rfl

/-- At every moment of an execution the scene is as good as one in which requests have been served
one after the other. -/
theorem serialized_of_execution {deployment : Deployment n S K V}
    (hfirst : ∀ thread, plan.LocksFirst depth map (requests thread))
    (hexcludes : (plan.settings map).locking.excludes = true) {last : Scene n S K V}
    (hexecution : plan.Execution depth map (Scene.initial deployment requests) history last) :
    Serialized plan depth map requests history last deployment := by
  induction hexecution with
  | start => exact serialized_initial deployment
  | move _ hmove ih => exact ih.move hfirst hexcludes hmove

end Moves

end ExpiringMap
