import ExpiringMap.Proofs.Pass.Listings
import ExpiringMap.Proofs.Servings
import ExpiringMap.Proofs.Stopping.Runs

/-!
# Departures from a map that is stopped

An entry that has been put since a stop (`Deployment.PutSinceStop`) leaves its map in one of the
ways that the journal tells of.

* It is replaced or removed by an act that only a put or a removal of its key performs.
* It is evicted by a pass whose scan has listed it.  The entry has a number that had not been given
  out before it was put, so it had been put by the time of the scan
  (`Deployment.PutSinceStop.of_listed`).  A scheduled pass makes its scan in the phase in which it
  begins, and that has to be one that allows runs (`isDue_scheduledPass`).
* It is not cleared.  Only a stop clears a store, and nothing has been put since it got through: all
  that it has done is to cancel the job of the map, a run of which is idle (`isDue_stop`).

So each step that is taken for a request is asked for in it, or does not concern what has been put
since a stop (`isDue_serve`).
-/

namespace ExpiringMap

variable {n : Nat} {S K V α β : Type}

/-! ## What has been put since a stop -/

namespace Deployment

/-- What has happened since the lifecycle call of a map that got through last. -/
def sinceCall (deployment : Deployment n S K V) (map : Fin n) : List (Event n K V) :=
  deployment.journal.takeWhile fun event => (event.call? map).isNone

/-- Whether an entry has been put in a map that has been stopped before and not been started
since. -/
structure PutSinceStop (deployment : Deployment n S K V) (map : Fin n) (entry : Entry K V) :
    Prop where
  halted : deployment.IsHalted map
  put : ∃ placed ∈ placings map (deployment.sinceCall map), entry.Stems placed

variable {earlier later : Deployment n S K V} {map : Fin n} {entry : Entry K V}

/-- What has not been put in the meantime had been put before. -/
theorem PutSinceStop.of_append {events : List (Event n K V)} (h : later.PutSinceStop map entry)
    (hjournal : later.journal = events ++ earlier.journal)
    (hnone : ∀ placed ∈ placings map events, ¬ entry.Stems placed) :
    earlier.PutSinceStop map entry := by
  obtain ⟨placed, hplaced, hstems⟩ := h.put
  rw [sinceCall, hjournal, List.takeWhile_append] at hplaced
  split at hplaced
  · -- none of these events is a call, so the entry may have been put in before them
    next hlength =>
    have hevents := (List.takeWhile_prefix _).eq_of_length hlength
    have hquiet : ∀ event ∈ events, event.call? map = none := fun event hevent =>
      Option.isNone_iff_eq_none.mp
        (List.all_eq_true.mp List.all_takeWhile event (hevents.symm ▸ hevent))
    rw [placings_append] at hplaced
    rcases List.mem_append.mp hplaced with hplaced | hplaced
    · exact absurd hstems (hnone placed hplaced)
    · refine ⟨?_, placed, hplaced, hstems⟩
      exact (lastCall?_append_of_none hquiet).symm.trans (hjournal ▸ h.halted)
  · have hmem := ((List.takeWhile_sublist _).filterMap _).subset hplaced
    exact absurd hstems (hnone placed hmem)

/-- An entry that is listed under its number had been put by then. -/
theorem PutSinceStop.of_listed (h : later.PutSinceStop map entry) (hearlier : earlier.Numbered)
    (hlater : later.Numbered) (hprecedes : earlier.Precedes later) {listed : Entry K V}
    (hlisted : listed ∈ (earlier.state map).store.entries) (hseq : listed.seq = entry.seq) :
    earlier.PutSinceStop map entry := by
  obtain ⟨events, hjournal⟩ := hprecedes
  refine h.of_append hjournal.symm fun placed hplaced hstems => ?_
  obtain ⟨first, hfirst, hstems'⟩ := (hearlier map).stems listed hlisted
  have hdescending := (hlater map).descending
  rw [← hjournal, placings_append] at hdescending
  have hless := (List.pairwise_append.mp hdescending).2.2 placed hplaced first hfirst
  have hnew := hstems.seq
  have hold := hstems'.seq
  omega

/-- Nothing has been put since a lifecycle call if nothing has been put since it got through. -/
theorem not_putSinceStop {since former : List (Event n K V)} {event : Event n K V}
    (hjournal : later.journal = since ++ event :: former) (hcall : event.call? map ≠ none)
    (hsince : placings map since = []) (entry : Entry K V) : ¬ later.PutSinceStop map entry := by
  rintro ⟨-, placed, hplaced, -⟩
  have hstops : (event :: former).takeWhile (fun event => (event.call? map).isNone) = [] :=
    List.takeWhile_cons_of_neg (by simpa using hcall)
  have hmem : placed ∈ placings map since := by
    rw [sinceCall, hjournal, List.takeWhile_append, hstops, List.append_nil] at hplaced
    split at hplaced
    · exact hplaced
    · exact ((List.takeWhile_sublist _).filterMap _).subset hplaced
  rw [hsince] at hmem
  cases hmem

end Deployment

theorem placings_eq_nil {events : List (Event n K V)}
    (h : ∀ map event, Event.ofMap map event ∉ events) (map : Fin n) : placings map events = [] := by
  refine List.filterMap_eq_nil_iff.mpr fun event hevent => ?_
  cases event with
  | ofMap other event => exact absurd hevent (h other event)
  | ofScheduler | clockMoved | logged | called | answered | acted | gathered => rfl

/-! ## What steps are taken for -/

/-- Whether a step that takes entries out of a map or lists them for it is asked for in a
request. -/
def Step.IsAskedFor (map : Fin n) (request : Request K V) : Step n K V → Prop
  | .act (.map other (.insert entry _)) =>
      other = map ∧ request = .map (.put entry.key entry.value entry.timeout)
  | .act (.map other (.remove key)) => other = map ∧ request = .map (.remove key)
  | .act (.map other (.scan _)) => other = map ∧ request = .map .purge
  | .act (.map _ .clear) => False
  | _ => True

/-- Whether a step that takes entries out of a map or lists them for it does not concern those that
have been put since a stop. -/
def Moment.Spares (moment : Moment n S K V) : Prop :=
  (∃ map now, moment.act = .act (.map map (.scan now)) ∧
      (moment.before.state map).phase.allowsRuns = true) ∨
    ∃ map, moment.act = .act (.map map .clear) ∧
      ∀ entry, ¬ moment.before.PutSinceStop map entry

def Moment.IsDue (map : Fin n) (request : Request K V) (moment : Moment n S K V) : Prop :=
  moment.act.IsAskedFor map request ∨ moment.Spares

/-- Unless it is a scan or a clearing, a step that is due is asked for. -/
theorem Moment.IsDue.isAskedFor {map other : Fin n} {request : Request K V}
    {moment : Moment n S K V} {act : MapAct K V} (h : moment.IsDue map request)
    (hact : moment.act = .act (.map other act)) (hscan : ∀ now, act ≠ .scan now)
    (hclear : act ≠ .clear) : (Step.act (.map other act)).IsAskedFor map request := by
  rcases h with hasked | ⟨_, now, heq, -⟩ | ⟨_, heq, -⟩
  · exact hact ▸ hasked
  · exact absurd (Act.map.inj (Step.act.inj (hact.symm.trans heq))).2 (hscan now)
  · exact absurd (Act.map.inj (Step.act.inj (hact.symm.trans heq))).2 hclear

section Steps

variable {map : Fin n} {request : Request K V} {step : Step n K V}

theorem Step.OfService.isAskedFor (h : step.OfService) : step.IsAskedFor map request := by
  cases step with
  | act act =>
      cases act with
      | map other done => cases done <;> first | exact h.elim | trivial
      | clock | scheduler | log | sleep => trivial
  | consult other hook => trivial

theorem Step.IsIdle.isAskedFor (h : step.IsIdle) : step.IsAskedFor map request := by
  cases step with
  | act act =>
      cases act with
      | map other done => cases done <;> first | exact h.elim | trivial
      | clock | scheduler | log | sleep => trivial
  | consult other hook => trivial

theorem Step.Asks.isAskedFor {other : Fin n} (h : step.Asks other) :
    step.IsAskedFor map request := by
  cases step with
  | act act =>
      cases act with
      | log map record => trivial
      | map | clock | scheduler | sleep => exact h.elim
  | consult map hook => trivial

theorem Step.Concludes.isAskedFor {other : Fin n} {confirmed : List (Entry K V)}
    (h : step.Concludes other confirmed) : step.IsAskedFor map request := by
  rcases h with ⟨entry, -, rfl⟩ | rfl | ⟨record, rfl⟩ <;> trivial

end Steps

namespace Operation

open Program

variable [DecidableEq K] {plan : Plan n S K V} {consultation : Consultation n S K V} {map : Fin n}
  {request : Request K V}

variable (plan consultation map request) in
/-- Whether what an operation does is asked for in a request, in so far as it concerns entries that
have been put since a stop. -/
def IsDue (operation : Operation n K V α) : Prop :=
  ∀ deployment, (∀ moment : Moment n S K V,
      moment ∈ operation.trace (plan.respond consultation) deployment → moment.before.Sound) →
    ∀ moment : Moment n S K V, moment ∈ operation.trace (plan.respond consultation) deployment →
      moment.IsDue map request

theorem isDue_of_every {operation : Operation n K V α}
    (h : operation.Every (Step.IsAskedFor map request)) :
    operation.IsDue plan consultation map request :=
  fun _ _ _ hmoment => .inl (h.of_mem_trace hmoment)

theorem isDue_bind {operation : Operation n K V α} {next : α → Operation n K V β}
    (h : operation.IsDue plan consultation map request)
    (hnext : ∀ result, (next result).IsDue plan consultation map request) :
    IsDue plan consultation map request (operation.bind next) := by
  intro deployment hsound
  rw [trace_bind] at hsound ⊢
  obtain ⟨hfirst, hrest⟩ := List.forall_mem_append.mp hsound
  exact List.forall_mem_append.mpr ⟨h deployment hfirst, hnext _ _ hrest⟩

/-! ### Passes that are allowed -/

theorem phase_of_searches {other : Fin n} {step : Step n K V} (h : step.Searches other)
    (deployment : Deployment n S K V) :
    ((plan.respond consultation step deployment).2.state other).phase =
      (deployment.state other).phase := by
  rcases h with rfl | rfl | ⟨now, rfl⟩ | rfl | ⟨count, rfl⟩ <;>
    first | rfl | simp [Plan.respond, Deployment.perform, MapAct.apply]

theorem phase_of_mem_search {other : Fin n} {deployment : Deployment n S K V}
    {moment : Moment n S K V}
    (hmoment : moment ∈ (search other).trace (plan.respond consultation) deployment) :
    (moment.before.state other).phase = (deployment.state other).phase := by
  refine before_eq_of_trace _ (fun deployment => (deployment.state other).phase) _ ?_ moment hmoment
  intro taken htaken
  have hrespond := respond_of_mem_trace _ htaken
  have hsearches := (searches_search other).of_mem_trace htaken
  obtain ⟨step, answer, before, after⟩ := taken
  obtain rfl : (plan.respond consultation step before).2 = after := congrArg Prod.snd hrespond
  exact phase_of_searches hsearches before

/-- A pass makes its scan in the phase in which it begins. -/
theorem isDue_pass_of_allowsRuns {other : Fin n} {deployment : Deployment n S K V}
    (h : (deployment.state other).phase.allowsRuns = true) :
    ∀ moment : Moment n S K V, moment ∈ (pass other).trace (plan.respond consultation) deployment →
      moment.IsDue map request := by
  intro moment hmoment
  rw [pass_eq, inquiry, bind_eq, Program.bind_assoc, trace_bind, trace_bind] at hmoment
  rcases List.mem_append.mp hmoment with hsearch | hmoment
  · -- only the scan is due in a way of its own, since the phase allows runs
    have hphase := phase_of_mem_search hsearch
    rcases (searches_search other).of_mem_trace hsearch with
      hact | hact | ⟨now, hact⟩ | hact | ⟨count, hact⟩
    · exact .inl (hact ▸ trivial)
    · exact .inl (hact ▸ trivial)
    · exact .inr (.inl ⟨other, now, hact, hphase ▸ h⟩)
    · exact .inl (hact ▸ trivial)
    · exact .inl (hact ▸ trivial)
  · rcases List.mem_append.mp hmoment with hasks | hconcludes
    · exact .inl ((asks_consultAll other _).of_mem_trace hasks).isAskedFor
    · exact .inl ((concludes_conclusion other _).of_mem_trace hconcludes).isAskedFor

theorem isDue_scheduledPass (other : Fin n) :
    IsDue plan consultation map request (scheduledPass other) := by
  intro deployment _
  obtain ⟨phase, read, heq, hread⟩ := deployment.exists_onMap plan.enumeration other .readPhase
  obtain rfl : (deployment.state other).phase = phase := congrArg Prod.fst heq
  have hphase : (read.state other).phase = (deployment.state other).phase := by
    rw [Affairs.change_eq_self rfl] at hread
    exact congrArg (fun affairs => (affairs.of other).phase) hread
  suffices h : (scheduledPass other).Ends (plan.respond consultation)
      (fun _ moments _ => ∀ moment ∈ moments, Moment.IsDue map request moment) deployment from h
  -- the phase decides whether the run makes its pass
  cases hallows : (deployment.state other).phase.allowsRuns with
  | false =>
      refine (idle_scheduledPass hallows).mono fun _ moments _ hidle moment hmoment => ?_
      exact .inl (hidle.1 moment hmoment).isAskedFor
  -- the run makes its pass, between two records at most
  | true =>
      refine (ends_onMap_bind heq).mpr ?_
      rw [hallows]
      refine ends_act.mpr (ends_bind.mpr (ends_done.mpr (ends_bind.mpr ?_)))
      set logged := read.note [.logged other .runBegins]
      have hpass : (pass other).Ends (plan.respond consultation)
          (fun _ moments _ => ∀ moment ∈ moments, Moment.IsDue map request moment) logged :=
        isDue_pass_of_allowsRuns (hphase ▸ hallows)
      refine hpass.mono fun outcome moments passed hdue => ?_
      cases outcome with
      | ok _ =>
          refine ends_done.mpr ?_
          simp only [List.forall_mem_cons, List.append_nil, List.nil_append]
          exact ⟨.inl trivial, .inl trivial, hdue⟩
      | error panic =>
          refine ends_act.mpr (ends_done.mpr ?_)
          simp only [List.forall_mem_cons, List.forall_mem_append, List.nil_append]
          exact ⟨.inl trivial, .inl trivial, hdue, .inl trivial, by simp⟩

/-! ### Stops -/

variable (plan consultation map request) in
/-- A stop clears the store before anything is put. -/
theorem isDue_clearing {other : Fin n} {deployment : Deployment n S K V}
    {since former : List (Event n K V)}
    (hjournal : deployment.journal = since ++ .ofMap other (.entered .stopping) :: former)
    (hsince : placings other since = []) :
    (do
      guarded other (clear other)
      setPhase other .stopped
      return .ok () : Operation n K V (Except Error Unit)).Ends (plan.respond consultation)
        (fun _ moments _ => ∀ moment ∈ moments, Moment.IsDue map request moment) deployment := by
  have hlocked : (deployment.onMap plan.enumeration other .lock).2.journal =
      (.ofMap other .locked :: since) ++ .ofMap other (.entered .stopping) :: former := by
    rw [Deployment.journal_onMap, hjournal]
    rfl
  have hnothing : placings other (.ofMap other .locked :: since) = [] := by
    simpa [placings, Event.placed?, MapEvent.placed?] using hsince
  -- nothing has been put in since the map began to stop, so whatever is cleared was there before
  have hnew := Deployment.not_putSinceStop hlocked (by simp [Event.call?, MapEvent.call?]) hnothing
  refine List.forall_mem_cons.mpr ⟨.inl trivial, ?_⟩
  refine List.forall_mem_cons.mpr ⟨.inr (.inr ⟨other, rfl, hnew⟩), ?_⟩
  exact List.forall_mem_cons.mpr ⟨.inl trivial, List.forall_mem_singleton.mpr (.inl trivial)⟩

theorem isDue_stop (other : Fin n) : IsDue plan consultation map request (stop other) := by
  intro deployment hsound
  have hbefore : deployment.Sound := hsound _ (List.mem_cons_self ..)
  suffices h : (stop other).Ends (plan.respond consultation)
      (fun _ moments _ => ∀ moment ∈ moments, Moment.IsDue map request moment) deployment from h
  obtain ⟨error, later, heq, -⟩ | ⟨begun, heq, hphase, hbegun⟩ :=
    deployment.onMap_cases_shift plan.enumeration other .stop .started .stopping
  · refine (ends_onMap_bind heq).mpr (ends_done.mpr ?_)
    exact List.forall_mem_singleton.mpr (.inl trivial)
  have hentered : begun.journal = .ofMap other (.entered .stopping) :: deployment.journal := by
    have hjournal := deployment.journal_onMap plan.enumeration other
      (.shift .stop .started .stopping)
    have hstarted : (deployment.state other).phase = .started := hphase
    rw [heq] at hjournal
    simpa [MapAct.events, hstarted] using hjournal
  refine (ends_onMap_bind heq).mpr ?_
  obtain ⟨taken, heq, htaken⟩ := begun.onMap_takeJob plan.enumeration other
  have hjournal : taken.journal = .ofMap other (.entered .stopping) :: deployment.journal := by
    have hsame := begun.journal_onMap plan.enumeration other .takeJob
    rw [heq] at hsame
    exact hsame.trans hentered
  cases hjob : (begun.affairs.of other).job with
  | none =>
      rw [hjob] at heq
      have hcleared := isDue_clearing plan consultation map request
        (hjournal.trans (List.nil_append _).symm) rfl
      refine (ends_onMap_bind heq).mpr (hcleared.mono fun _ moments _ hdue => ?_)
      simp only [List.forall_mem_cons]
      exact ⟨.inl trivial, .inl trivial, hdue⟩
  | some id =>
      rw [hjob] at heq
      -- the job is the map's own, so a run that comes of its cancellation is idle
      have howner : taken.affairs.owners[id]? = some other := by
        rw [hbegun, Affairs.of_change, if_pos rfl] at hjob
        rw [htaken, hbegun]
        exact hbefore.owned other id hjob
      have hstopping : (taken.state other).phase.allowsRuns = false := by
        have hphase : (taken.affairs.of other).phase = .stopping := by
          simp [htaken, hbegun, Affair.dropJob, Affair.enter]
        exact congrArg Phase.allowsRuns hphase
      refine (ends_onMap_bind heq).mpr (ends_bind.mpr ?_)
      refine (idles_of_ends (idle_cancel retire howner hstopping)).mono ?_
      rintro - cancelling cancelled ⟨hidle, hidles⟩
      obtain ⟨events, hevents, hnone⟩ := hidles.journal
      rw [hjournal] at hevents
      have hcleared := isDue_clearing plan consultation map request hevents
        (placings_eq_nil hnone other)
      refine hcleared.mono fun _ moments _ hdue => ?_
      simp only [List.forall_mem_cons, List.forall_mem_append]
      exact ⟨.inl trivial, .inl trivial, fun moment hmoment =>
        .inl (hidle moment hmoment).isAskedFor, hdue⟩

/-! ### Requests -/

variable (plan consultation map request) in
theorem composes_isDue :
    ComposesRuns fun _ operation => operation.IsDue plan consultation map request where
  done _ := isDue_of_every trivial
  step _ hservice _ := isDue_of_every ⟨hservice.isAskedFor, fun _ => trivial⟩
  bind := isDue_bind
  scheduledPass := isDue_scheduledPass

theorem isDue_serveMap (settings : Settings n S K V) (map : Fin n) (asked : MapRequest K V) :
    IsDue plan consultation map (.map asked) (serveMap settings map asked) := by
  have h := composes_isDue plan consultation map (.map asked)
  by_cases hplain : asked.IsPlain
  · exact h.serveMap settings map hplain
  cases asked with
  | get key =>
      refine isDue_bind (isDue_of_every (every_guarded trivial trivial ?_)) fun _ => h.done _
      exact ⟨trivial, fun _ => ⟨trivial, fun _ => trivial⟩⟩
  | put key value timeout =>
      refine isDue_bind (isDue_of_every (every_guarded trivial trivial ?_)) fun _ => h.done _
      exact ⟨trivial, fun _ => ⟨trivial, fun _ => ⟨⟨rfl, rfl⟩, fun _ => trivial⟩⟩⟩
  | putIfAbsent key value timeout =>
      refine isDue_bind (isDue_of_every (every_guarded trivial trivial ?_)) fun _ => h.done _
      exact ⟨trivial, fun _ => ⟨trivial, fun _ => ⟨trivial, fun _ => trivial⟩⟩⟩
  | remove key =>
      refine isDue_bind (isDue_of_every (every_guarded trivial trivial ?_)) fun _ => h.done _
      exact ⟨⟨rfl, rfl⟩, fun _ => trivial⟩
  -- a pass that is asked for may do all that passes do
  | purge =>
      refine isDue_bind (isDue_of_every ((steps_pass map).mono fun step hstep => ?_))
        fun _ => h.done _
      rcases hstep with hsearches | hasks | ⟨confirmed, hconcludes⟩
      · rcases hsearches with rfl | rfl | ⟨now, rfl⟩ | rfl | ⟨count, rfl⟩
        · trivial
        · trivial
        · exact ⟨rfl, rfl⟩
        · trivial
        · trivial
      · exact hasks.isAskedFor
      · exact hconcludes.isAskedFor
  -- a start consults nobody itself, and the run it may lead to is due as any other
  | start =>
      refine isDue_bind (h.start (fun act hact => ?_) _) fun _ => h.done _
      exact isDue_of_every ⟨(show (Step.act (.map map act)).OfService from hact).isAskedFor,
        fun _ => trivial⟩
  | stop => exact isDue_bind (isDue_stop map) fun _ => h.done _
  | size | isEmpty | phase | name | interval | isSchedulerShutdown | describe | addHandle
  | awaitSize => exact absurd trivial hplain

end Operation

/-- Whatever is done for a request is asked for in it, in so far as it concerns entries that have
been put since a stop. -/
theorem isDue_serve [DecidableEq K] (plan : Plan n S K V) (consultation : Consultation n S K V)
    (map : Fin n) (request : Request K V) :
    (plan.operation map request).IsDue plan consultation map request := by
  refine (Operation.composes_isDue plan consultation map request).serve (plan.settings map) map
    request fun asked heq => ?_
  subst heq
  exact Operation.isDue_serveMap (plan.settings map) map asked

end ExpiringMap
