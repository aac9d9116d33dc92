import ExpiringMap.Proofs.Jobs.Upkeep

/-!
# Serving requests keeps affairs in order

A start and a stop each find the map in a phase that they need, and go through a phase of their own
in which they may schedule or cancel a job, and a scheduler may run it there and then.  Hooks that
are called meanwhile spare the map, so the call finds its job as it has left it.  So every request
keeps affairs in order, and a map has one more job exactly when a start has succeeded
(`ends_serve`).
-/

namespace ExpiringMap.Operation

open Program

variable {n : Nat} {S K V α : Type} [DecidableEq K]

section Ends

variable (plan : Plan n S K V) (list : Listing n S K V) (consultation : Consultation n S K V)

/-- A start that fails puts the map back where it was. -/
theorem ends_abort_start {map : Fin n} {earlier : Affairs n} {deployment : Deployment n S K V}
    (h : earlier.Orderly) (hphase : (earlier.of map).phase = .stopped)
    (hbegun : deployment.affairs = earlier.change map (Affair.enter .starting)) (error : Error) :
    (do
      setPhase map .stopped
      return .error error : Operation n K V (Except Error Unit)).Ends (plan.respond consultation)
      (fun result moments later =>
        result = .error error ∧ plan.servingsAmong list moments = [] ∧ later.affairs.Orderly ∧
          earlier.Follows (fun _ => []) later.affairs) deployment := by
  obtain ⟨_, back, heq, hback⟩ :=
    deployment.exists_onMap plan.enumeration map (.setPhase .stopped)
  -- entering the phase and going back to where it was is no change at all
  rw [hbegun, Affairs.change_change, Affairs.change_eq_self] at hback
  · refine (ends_onMap_bind heq).mpr (ends_done.mpr ⟨rfl, rfl, ?_⟩)
    rw [hback]
    exact ⟨h, .refl earlier⟩
  · simp only [MapAct.onAffair, Affair.enter, ← hphase]

/-- Once the run has been made that a scheduler may make at once, a start succeeds. -/
theorem ends_finish_start {map : Fin n} {earlier : Affairs n} {started : Fin n → List Nat}
    {deployment : Deployment n S K V} (h : earlier.Orderly)
    (hphase : (earlier.of map).phase = .stopped) (huses : 0 < (earlier.of map).uses)
    (hfollows : (earlier.beginStart map).Follows started deployment.affairs)
    (horderly : deployment.affairs.Orderly) :
    (do
      keepJob map earlier.owners.length
      setPhase map .started
      return .ok () : Operation n K V (Except Error Unit)).Ends (plan.respond consultation)
      (fun result moments later =>
        result = .ok () ∧ plan.servingsAmong list moments = [] ∧ later.affairs.Orderly ∧
          earlier.Follows (fun other =>
            started other ++ if other = map then [earlier.owners.length] else []) later.affairs)
      deployment := by
  -- the job is kept and the phase entered, neither of which consults anybody
  obtain ⟨_, kept, hkeep, hkept⟩ := deployment.exists_onMap plan.enumeration map (.keepJob _)
  obtain ⟨_, ended, henter, hended⟩ := kept.exists_onMap plan.enumeration map (.setPhase .started)
  refine (ends_onMap_bind hkeep).mpr ((ends_onMap_bind henter).mpr ?_)
  refine ends_done.mpr ⟨rfl, rfl, ?_⟩
  rw [hended, hkept]
  exact h.end_start hphase huses hfollows horderly

end Ends

variable {plan : Plan n S K V} {list : Listing n S K V} {consultation : Consultation n S K V}
  (hconsult : ∀ map hook deployment,
    ExpiringMap.KeepsOrder deployment (plan.servingsOfHook list map hook deployment)
      (plan.consult consultation map hook deployment).2)
include hconsult

/-! ## Starts and stops -/

theorem ends_start {map : Fin n} {deployment : Deployment n S K V}
    (h : deployment.affairs.Orderly) (huses : 0 < (deployment.affairs.of map).uses)
    (interval : Duration) :
    (start map interval).Ends (plan.respond consultation) (fun result moments later =>
      later.affairs.Orderly ∧
        match result with
        | .error _ => deployment.affairs.Follows
            (startedJobs (plan.servingsAmong list moments)) later.affairs
        | .ok () => ∃ id, moments.findSome? Moment.acceptedJob? = some id ∧
            deployment.affairs.Follows (fun other =>
              startedJobs (plan.servingsAmong list moments) other ++
                if other = map then [id] else []) later.affairs) deployment := by
  obtain ⟨error, later, heq, hlater⟩ | ⟨begun, heq, hphase, hbegun⟩ :=
    deployment.onMap_cases_shift plan.enumeration map .start .stopped .starting
  · refine (ends_onMap_bind heq).mpr (ends_done.mpr ?_)
    rw [hlater]
    exact ⟨h, .refl deployment.affairs⟩
  refine (ends_onMap_bind heq).mpr ?_
  -- The scheduler is asked first whether it is shut down.
  obtain ⟨shut, asked, hshut, hasked⟩ := begun.exists_onScheduler .isShutdown trivial
  rw [hbegun] at hasked
  refine (ends_onScheduler_bind hshut).mpr ?_
  cases shut with
  | true =>
      refine (ends_abort_start plan list consultation h hphase hasked _).mono
        fun result moments later hlater => ?_
      obtain ⟨rfl, hnone, horderly, hfollows⟩ := hlater
      rw [Plan.servingsAmong_act, Plan.servingsAmong_act, hnone]
      exact ⟨horderly, hfollows⟩
  | false =>
  obtain ⟨error, refused, heq, hrefused⟩ | ⟨runsAtOnce, accepted, heq, hadded⟩ :=
    asked.onScheduler_cases_schedule map .zero interval
  · refine (ends_onScheduler_bind heq).mpr ?_
    refine (ends_abort_start plan list consultation h hphase (hrefused.trans hasked) _).mono
      fun result moments later hlater => ?_
    obtain ⟨rfl, hnone, horderly, hfollows⟩ := hlater
    rw [Plan.servingsAmong_act, Plan.servingsAmong_act, Plan.servingsAmong_act, hnone]
    exact ⟨horderly, hfollows⟩
  · refine (ends_onScheduler_bind heq).mpr ?_
    have hid : asked.affairs.owners.length = deployment.affairs.owners.length := by
      rw [hasked, Affairs.owners_change]
    rw [hasked] at hadded
    replace hadded : accepted.affairs = deployment.affairs.beginStart map := hadded
    have horderly : accepted.affairs.Orderly := hadded ▸ h.begin_start huses
    rw [hid]
    cases runsAtOnce with
    | true =>
        have hrun := keepsOrder_runJob hconsult deployment.affairs.owners.length accepted horderly
        refine ends_bind.mpr (hrun.mono fun _ during between hbetween => ?_)
        rw [hadded] at hbetween
        refine (ends_finish_start plan list consultation h hphase huses hbetween.2
          hbetween.1).mono fun result moments later hlater => ?_
        obtain ⟨rfl, hnone, hlast, hfollows⟩ := hlater
        refine ⟨hlast, _, rfl, ?_⟩
        simp only [Plan.servingsAmong_act, Plan.servingsAmong_append, hnone, List.append_nil]
        exact hfollows
    | false =>
        have hrefl : (deployment.affairs.beginStart map).Follows (fun _ => [])
            accepted.affairs := by
          rw [hadded]
          exact .refl _
        refine (ends_finish_start plan list consultation h hphase huses hrefl horderly).mono
          fun result moments later hlater => ?_
        obtain ⟨rfl, hnone, hlast, hfollows⟩ := hlater
        refine ⟨hlast, _, rfl, ?_⟩
        simp only [Plan.servingsAmong_act, hnone, startedJobs_nil]
        exact hfollows

/-- Once a job has been cancelled affairs are in order, whether or not it is run in the course of
that. -/
theorem ends_cancel {map : Fin n} {id : Nat} {deployment : Deployment n S K V}
    (howner : deployment.affairs.owners[id]? = some map)
    (h : (deployment.affairs.cancel map id).Orderly) :
    (cancel retire map id).Ends (plan.respond consultation) (fun _ moments later =>
      later.affairs.Orderly ∧ (deployment.affairs.cancel map id).Follows
        (startedJobs (plan.servingsAmong list moments)) later.affairs) deployment := by
  obtain ⟨runs, marked, heq, hcancelled⟩ := Deployment.exists_onScheduler_cancel map howner
  refine (ends_onScheduler_bind heq).mpr ?_
  rw [← hcancelled] at h ⊢
  -- the job is run once more only if that was asked for
  cases runs with
  | false => exact ends_done.mpr ⟨h, .refl _⟩
  | true =>
      have hrun : KeepsOrder plan list consultation (do
          let _ ← runOnce (K := K) (V := V) retire id
          return) :=
        keepsOrder_bind (keepsOrder_runJob hconsult id) fun _ => keepsOrder_done ()
      exact hrun marked h

omit hconsult in
/-- A stop that has begun takes the job that its map keeps, and may cancel it. -/
theorem exists_takeJob (enumeration : Fin n → Enumeration K V) {map : Fin n}
    {deployment begun : Deployment n S K V} (h : deployment.affairs.Orderly)
    (hphase : (deployment.affairs.of map).phase = .started)
    (huses : 0 < (deployment.affairs.of map).uses)
    (hbegun : begun.affairs = deployment.affairs.change map (Affair.enter .stopping)) :
    ∃ id taken, begun.onMap enumeration map .takeJob = (some id, taken) ∧
      (deployment.affairs.of map).job = some id ∧
      taken.affairs =
        (deployment.affairs.change map (Affair.enter .stopping)).change map Affair.dropJob ∧
      taken.affairs.owners[id]? = some map ∧ (taken.affairs.cancel map id).Orderly := by
  obtain ⟨id, hjob, howner, horderly⟩ := h.exists_job hphase huses
  obtain ⟨taken, heq, htaken⟩ := begun.onMap_takeJob enumeration map
  -- shifting the phase has left the job in its slot
  have hkept : (begun.affairs.of map).job = some id := by
    simpa [hbegun, Affair.enter] using hjob
  rw [hkept] at heq
  rw [hbegun] at htaken
  exact ⟨id, taken, heq, hjob, htaken, by simpa [htaken] using howner, htaken ▸ horderly⟩

theorem ends_stop {map : Fin n} {deployment : Deployment n S K V}
    (h : deployment.affairs.Orderly) (huses : 0 < (deployment.affairs.of map).uses) :
    (stop map).Ends (plan.respond consultation) (fun _ moments later =>
      later.affairs.Orderly ∧ deployment.affairs.Follows
        (startedJobs (plan.servingsAmong list moments)) later.affairs) deployment := by
  obtain ⟨error, later, heq, hlater⟩ | ⟨begun, heq, hphase, hbegun⟩ :=
    deployment.onMap_cases_shift plan.enumeration map .stop .started .stopping
  · refine (ends_onMap_bind heq).mpr (ends_done.mpr ?_)
    rw [hlater]
    exact ⟨h, .refl deployment.affairs⟩
  refine (ends_onMap_bind heq).mpr ?_
  obtain ⟨id, taken, heq, hjob, htaken, howner, horderly⟩ :=
    exists_takeJob plan.enumeration h hphase huses hbegun
  -- from the slot the job goes to the scheduler, and after that the store is emptied
  refine (ends_onMap_bind heq).mpr ?_
  have hcancel := ends_cancel hconsult howner horderly
  refine ends_bind.mpr (hcancel.mono fun _ during cancelled hcancelled => ?_)
  have hempty := (composes_keepsOrder hconsult).empty map cancelled hcancelled.1
  refine ends_bind.mpr (hempty.mono fun _ more cleared hcleared => ?_)
  have hfollows := hcancelled.2.trans hcleared.2
  rw [htaken] at hfollows
  obtain ⟨_, ended, heq, hended⟩ := cleared.exists_onMap plan.enumeration map (.setPhase .stopped)
  refine (ends_onMap_bind heq).mpr (ends_done.mpr ?_)
  simp only [hended, Plan.servingsAmong_act, Plan.servingsAmong_append, Plan.servingsAmong_nil,
    List.append_nil, startedJobs_append]
  exact h.end_stop hphase huses hjob hfollows hcleared.1

/-! ## Requests -/

theorem keepsOrder_put (map : Fin n) (key : K) (value : V) (timeout : Duration) :
    KeepsOrder plan list consultation (put map key value timeout) := by
  refine (composes_keepsOrder hconsult).guarded map ?_
  refine keepsOrder_bind (keepsOrder_onMap (fun _ => rfl) map) fun seq => ?_
  refine keepsOrder_bind (composes_keepsOrder hconsult).now fun now => ?_
  exact keepsOrder_onMap (fun _ => rfl) map

theorem keepsOrder_putIfAbsent (map : Fin n) (key : K) (value : V) (timeout : Duration) :
    KeepsOrder plan list consultation (putIfAbsent map key value timeout) := by
  refine (composes_keepsOrder hconsult).guarded map ?_
  refine keepsOrder_bind (keepsOrder_onMap (fun _ => rfl) map) fun seq => ?_
  refine keepsOrder_bind (composes_keepsOrder hconsult).now fun now => ?_
  exact keepsOrder_onMap (fun _ => rfl) map

omit hconsult in
theorem keepsOrder_awaitSize (map : Fin n) (count patience : Nat) :
    KeepsOrder plan list consultation (awaitSize (K := K) (V := V) map count patience) := by
  have hsize : KeepsOrder plan list consultation (size (K := K) (V := V) map) :=
    keepsOrder_onMap (fun _ => rfl) map
  induction patience with
  | zero => exact keepsOrder_bind hsize fun _ => keepsOrder_done _
  | succ patience ih =>
      refine keepsOrder_bind hsize fun size => ?_
      split
      · exact keepsOrder_done _
      · exact keepsOrder_bind (keepsOrder_act fun deployment => deployment.affairs_elapse _)
          fun _ => ih

/-- Whatever is asked of a map through a handle but to start keeps affairs in order. -/
theorem ends_serveMap_of_ne {map : Fin n} {deployment : Deployment n S K V}
    (h : deployment.affairs.Orderly) (huses : 0 < (deployment.affairs.of map).uses)
    (settings : Settings n S K V) {asked : MapRequest K V} (hasked : asked ≠ .start) :
    (serveMap settings map asked).Ends (plan.respond consultation) (fun _ moments later =>
      later.affairs.Orderly ∧ deployment.affairs.Follows
        (startedJobs (plan.servingsAmong list moments)) later.affairs) deployment := by
  have hcomposes := composes_keepsOrder hconsult
  have hplain : ∀ act : MapAct K V, (∀ affair, act.onAffair affair = affair) →
      KeepsOrder plan list consultation (onMap map act) := fun _ hact => keepsOrder_onMap hact map
  have hfinish : ∀ {β γ : Type} {operation : Operation n K V β} (finish : β → γ),
      KeepsOrder plan list consultation operation →
        KeepsOrder plan list consultation (operation.bind fun result => .done (finish result)) :=
    fun finish hoperation => keepsOrder_bind hoperation fun _ => keepsOrder_done _
  cases asked with
  | get key => exact hfinish _ (hcomposes.get map key) deployment h
  | put key value timeout =>
      exact hfinish _ (keepsOrder_put hconsult map key value timeout) deployment h
  | putIfAbsent key value timeout =>
      exact hfinish _ (keepsOrder_putIfAbsent hconsult map key value timeout) deployment h
  | remove key => exact hfinish _ (hcomposes.remove map key) deployment h
  | size => exact hfinish _ (hplain .size fun _ => rfl) deployment h
  | isEmpty => exact hfinish _ (hplain .size fun _ => rfl) deployment h
  | purge => exact hfinish _ (hcomposes.pass map) deployment h
  | start => exact absurd rfl hasked
  -- a stop changes jobs, but it starts none
  | stop =>
      refine ends_bind.mpr ((ends_stop hconsult h huses).mono fun _ moments later hlater => ?_)
      exact ends_done.mpr (by rwa [List.append_nil])
  | phase => exact hfinish _ (hplain .readPhase fun _ => rfl) deployment h
  | name => exact keepsOrder_done _ deployment h
  | interval => exact keepsOrder_done _ deployment h
  | isSchedulerShutdown =>
      exact hfinish _ (keepsOrder_onScheduler .isShutdown trivial) deployment h
  | describe layout =>
      have hdescribe :
          KeepsOrder plan list consultation (serveMap settings map (.describe layout)) :=
        keepsOrder_bind (hplain .size fun _ => rfl) fun _ =>
          hfinish _ (hplain .readPhase fun _ => rfl)
      exact hdescribe deployment h
  -- somebody has the map in use, so one more handle makes no difference
  | addHandle =>
      obtain ⟨_, later, heq, hlater⟩ := deployment.exists_onMap plan.enumeration map .addHandle
      refine (ends_onMap_bind heq).mpr (ends_done.mpr ?_)
      rw [hlater]
      exact ⟨h.addHandle huses, .addHandle deployment.affairs map⟩
  | awaitSize count => exact hfinish _ (keepsOrder_awaitSize map count _) deployment h

omit hconsult [DecidableEq K] in
theorem startedJobs_singleton (serving : Serving n S K V) :
    startedJobs [serving] = fun map => (serving.startedJob? map).toList := by
  funext map
  unfold startedJobs
  cases h : serving.startedJob? map <;> simp [h]

omit hconsult [DecidableEq K] in
/-- A map is started only if that is asked for and succeeds. -/
theorem startedJobs_eq_nil {serving : Serving n S K V}
    (h : serving.request ≠ .map .start ∨ serving.outcome ≠ .ok (.status (.ok ()))) :
    startedJobs [serving] = fun _ => [] := by
  rw [startedJobs_singleton]
  funext map
  unfold Serving.startedJob?
  split
  · next hrequest houtcome =>
    exact h.elim (fun hne => absurd hrequest hne) fun hne => absurd houtcome hne
  · rfl

/-- Whether these are the jobs that maps have been started with when a request has been served,
given the steps of what was done with a map in use. -/
def Starts (plan : Plan n S K V) (list : Listing n S K V) (map : Fin n) (asked : MapRequest K V)
    (outcome : Outcome (Answer V)) (during : List (Moment n S K V))
    (started : Fin n → List Nat) : Prop :=
  ∀ earlier last, plan.servingsAmong list earlier = [] → plan.servingsAmong list last = [] →
    earlier.findSome? Moment.acceptedJob? = none →
    startedJobs (plan.servingsAmong list (earlier ++ (during ++ last)) ++
      [⟨map, .map asked, outcome, earlier ++ (during ++ last)⟩]) = started

omit hconsult in
/-- What is done with a map through a handle is done while the map is in use. -/
theorem ends_withHandle {deployment : Deployment n S K V} (h : deployment.affairs.Orderly)
    (map : Fin n) {asked : MapRequest K V} {body : Operation n K V (Outcome (Answer V))}
    (hbody : ∀ begun : Deployment n S K V, begun.affairs.Orderly →
      0 < (begun.affairs.of map).uses →
      body.Ends (plan.respond consultation) (fun outcome during later => later.affairs.Orderly ∧
        ∃ started, Starts plan list map asked outcome during started ∧
          begun.affairs.Follows started later.affairs) begun) :
    (withHandle map body).Ends (plan.respond consultation) (fun outcome moments later =>
      later.affairs.Orderly ∧ deployment.affairs.Follows
        (startedJobs (plan.servingsAmong list moments ++
          [⟨map, .map asked, outcome.getD (.ok .noHandle), moments⟩])) later.affairs)
      deployment := by
  obtain ⟨begun, heq, hheld, hbegun⟩ | ⟨later, heq, hlater⟩ :=
    deployment.onMap_cases_borrow plan.enumeration map
  · -- the request has a use of the map until it is released
    have hused := Affair.used_use hheld
    have huses : 0 < (begun.affairs.of map).uses := by
      rw [hbegun, Affairs.of_change, if_pos rfl, hused.uses]
      omega
    have hdone := hbody begun (hbegun ▸ h.use hused) huses
    refine (ends_onMap_bind heq).mpr (ends_bind.mpr ?_)
    refine hdone.mono fun outcome during between hbetween => ?_
    obtain ⟨horderly, started, hstarts, hfollows⟩ := hbetween
    rw [hbegun] at hfollows
    have hreleased := ends_release plan list consultation h hused hfollows horderly
    refine ends_bind.mpr (hreleased.mono fun _ last later hlater => ends_done.mpr ?_)
    refine ⟨hlater.2.1, ?_⟩
    have hmoments := hstarts [⟨.act (.map map .borrow), true, deployment, begun⟩] last rfl hlater.1
      rfl
    rw [List.append_nil]
    exact hmoments ▸ hlater.2.2
  · -- without a handle nothing is served
    refine (ends_onMap_bind heq).mpr (ends_done.mpr ?_)
    rw [hlater]
    refine ⟨h, ?_⟩
    show deployment.affairs.Follows (startedJobs [_]) deployment.affairs
    rw [startedJobs_eq_nil (.inr (by simp))]
    exact .refl _

theorem ends_serveMap {deployment : Deployment n S K V} (h : deployment.affairs.Orderly)
    {map : Fin n} (huses : 0 < (deployment.affairs.of map).uses)
    (settings : Settings n S K V) (asked : MapRequest K V) :
    (serveMap settings map asked).Ends (plan.respond consultation) (fun outcome during later =>
      later.affairs.Orderly ∧ ∃ started, Starts plan list map asked outcome during started ∧
        deployment.affairs.Follows started later.affairs) deployment := by
  by_cases hasked : asked = .start
  · subst hasked
    have hstart := ends_start hconsult h huses settings.interval
    refine ends_bind.mpr (hstart.mono fun result during later hlater => ends_done.mpr ?_)
    refine ⟨hlater.1, ?_⟩
    rw [List.append_nil]
    cases result with
    -- a start that fails has started no job, whatever was scheduled meanwhile
    | error error =>
        refine ⟨_, fun earlier last hearlier hlast _ => ?_, hlater.2⟩
        rw [startedJobs_append, startedJobs_eq_nil (.inr (by simp))]
        simp [hearlier, hlast]
    -- a start that succeeds has started the job that was accepted first
    | ok _ =>
        obtain ⟨id, hid, hfollows⟩ := hlater.2
        refine ⟨_, fun earlier last hearlier hlast hnone => ?_, hfollows⟩
        have hfirst : (earlier ++ (during ++ last)).findSome? Moment.acceptedJob? = some id := by
          simp [hnone, hid]
        rw [startedJobs_append, startedJobs_singleton]
        funext other
        by_cases hother : other = map
        · simp [Serving.startedJob?, hearlier, hlast, hfirst, hother]
        · simp [Serving.startedJob?, hearlier, hlast, hother, Ne.symm hother]
  · refine (ends_serveMap_of_ne hconsult h huses settings hasked).mono
      fun outcome during later hlater => ?_
    refine ⟨hlater.1, _, fun earlier last hearlier hlast _ => ?_, hlater.2⟩
    rw [startedJobs_append, startedJobs_eq_nil (.inl (by simpa using hasked))]
    simp [hearlier, hlast]

/-- Serving a request keeps affairs in order. -/
theorem ends_serve {deployment : Deployment n S K V} (h : deployment.affairs.Orderly)
    (settings : Settings n S K V) (map : Fin n) (request : Request K V) :
    (serve settings map request).Ends (plan.respond consultation) (fun outcome moments later =>
      later.affairs.Orderly ∧ deployment.affairs.Follows
        (startedJobs (plan.servingsAmong list moments ++ [⟨map, request, outcome, moments⟩]))
        later.affairs) deployment := by
  -- Requests that keep order whatever they find, and that start nothing.
  have hkeeps : ∀ {β : Type} {operation : Operation n K V β}
      (finish : β → Outcome (Answer V)), request ≠ .map .start →
      KeepsOrder plan list consultation operation →
      (operation.bind fun result => .done (finish result)).Ends (plan.respond consultation)
        (fun outcome moments later => later.affairs.Orderly ∧ deployment.affairs.Follows
          (startedJobs (plan.servingsAmong list moments ++ [⟨map, request, outcome, moments⟩]))
          later.affairs) deployment := by
    intro β operation finish hne hoperation
    have hdone := keepsOrder_bind hoperation (fun result => keepsOrder_done (finish result))
    refine (hdone deployment h).mono fun outcome moments later hlater => ⟨hlater.1, ?_⟩
    rw [startedJobs_append, startedJobs_eq_nil (.inl hne)]
    simpa using hlater.2
  cases request with
  | map asked =>
      refine ends_bind.mpr ?_
      have hserved := ends_withHandle h map fun begun hbegun huses =>
        ends_serveMap hconsult hbegun huses settings asked
      refine hserved.mono fun outcome moments later hlater => ends_done.mpr ?_
      rwa [List.append_nil]
  | dropHandle => exact hkeeps _ (by simp) (keepsOrder_dropHandle map)
  | advance ns =>
      exact hkeeps _ (by simp) (keepsOrder_act fun deployment => deployment.affairs_onClock _)
  | rewind ns =>
      exact hkeeps _ (by simp) (keepsOrder_act fun deployment => deployment.affairs_onClock _)
  | sleep milliseconds =>
      exact hkeeps _ (by simp) (keepsOrder_act fun deployment => deployment.affairs_elapse _)
  | shutdown => exact hkeeps _ (by simp) (keepsOrder_onScheduler .shutdown trivial)
  | refuse error => exact hkeeps _ (by simp) (keepsOrder_onScheduler (.refuse error) trivial)
  | runJob id => exact hkeeps _ (by simp) (keepsOrder_runJob hconsult id)
  | tick =>
      exact hkeeps _ (by simp) (keepsOrder_bind (keepsOrder_onScheduler .jobCount trivial)
        fun count => keepsOrder_runReady hconsult count 0)

end ExpiringMap.Operation
