import ExpiringMap.Proofs.Ledger.Sweeps
import ExpiringMap.Proofs.Operation.Composition

/-!
# What requests write in a ledger

Whatever request is served, its lines are those of entries that it places, replaces, removes or
clears itself, as its answer tells, with sweeps before and after: a start, a stop, a tick and the
last caller of a map may each have scheduled passes run in the course of what they do
(`accounted_serve`).
-/

namespace ExpiringMap

variable {n : Nat} {S K V α : Type}

/-- Whether lines are those of the entries that a request moves itself, given what it has come
to. -/
def Request.Moves : Request K V → Outcome (Answer V) → List (Line K V) → Prop
  | .map (.put key value timeout), .ok (.value replaced), lines =>
      ∃ entry : Entry K V, entry.key = key ∧ entry.value = value ∧ entry.timeout = timeout ∧
        match replaced with
        | none => lines = [.placed entry]
        | some returned => ∃ old : Entry K V, old.key = key ∧ old.value = returned ∧
            lines = [.left old .replaced, .placed entry]
  | .map (.putIfAbsent key value timeout), .ok (.value none), lines =>
      ∃ entry : Entry K V, entry.key = key ∧ entry.value = value ∧ entry.timeout = timeout ∧
        lines = [.placed entry]
  | .map (.remove key), .ok (.value (some returned)), lines =>
      ∃ old : Entry K V, old.key = key ∧ old.value = returned ∧ lines = [.left old .removed]
  | .map .stop, .ok (.status (.ok ())), lines =>
      ∃ entries : List (Entry K V), lines = entries.map (.left · .cleared)
  | _, _, lines => lines = []

theorem Request.moves_nil {request : Request K V} (outcome : Outcome (Answer V))
    (h : ∀ asked, request = .map asked → asked.IsQuiet) : request.Moves outcome [] := by
  cases request with
  | map asked =>
      have hquiet := h asked rfl
      cases asked with
      | put | putIfAbsent | remove | stop => exact hquiet.elim
      | _ => rfl
  | _ => rfl

theorem Request.moves_noHandle (asked : MapRequest K V) :
    (Request.map asked).Moves (.ok .noHandle) [] := by
  cases asked <;> rfl

variable [DecidableEq K]

/-! ### The acts that move entries -/

section Acts

variable (enumeration : Enumeration K V) (entry : Entry K V) (now : Instant) (key : K)
  (state : MapState K V)

theorem Request.moves_insert :
    (Request.map (.put entry.key entry.value entry.timeout)).Moves
      (.ok (.value ((MapAct.insert entry now).answer enumeration state)))
      (((MapAct.insert entry now).events state).filterMap MapEvent.line?) := by
  refine ⟨entry.touch now, rfl, rfl, rfl, ?_⟩
  simp only [MapAct.answer, MapAct.events, Store.insert, Entry.touch_key]
  cases hlookup : state.store.lookup entry.key with
  | none => rfl
  | some old => exact ⟨old, Store.key_of_lookup hlookup, rfl, rfl⟩

theorem Request.moves_insertIfAbsent :
    (Request.map (.putIfAbsent entry.key entry.value entry.timeout)).Moves
      (.ok (.value ((MapAct.insertIfAbsent entry now).answer enumeration state)))
      (((MapAct.insertIfAbsent entry now).events state).filterMap MapEvent.line?) := by
  simp only [MapAct.answer, MapAct.events, Store.insertIfAbsent, Entry.touch_key]
  cases state.store.lookup entry.key with
  | none => exact ⟨entry.touch now, rfl, rfl, rfl, rfl⟩
  | some present => rfl

theorem Request.moves_remove :
    (Request.map (.remove key)).Moves
      (.ok (.value ((MapAct.remove key).answer enumeration state)))
      (((MapAct.remove key).events state).filterMap MapEvent.line?) := by
  simp only [MapAct.answer, MapAct.events, Store.remove]
  cases hlookup : state.store.lookup key with
  | none => rfl
  | some old => exact ⟨old, Store.key_of_lookup hlookup, rfl, rfl⟩

omit enumeration entry now key in
theorem Request.moves_clear :
    (Request.map .stop).Moves (.ok (.status (.ok ())))
      ((MapAct.clear.events state).filterMap MapEvent.line?) :=
  ⟨state.store.entries, by
    simp [MapAct.events, MapEvent.line?, List.filterMap_map, Function.comp_def]⟩

end Acts

/-- Whether the ledger that a map has of the steps of a request is that of the entries which the
request moves itself, with sweeps before and after that are exact if no hook consulted in these
steps has anything done with the map. -/
def Serving.Accounted (map : Fin n) (serving : Serving n S K V) : Prop :=
  ∃ (earlier later : List (Sweep K V)) (own : List (Line K V)),
    ledger map serving.moments =
        earlier.flatMap Sweep.lines ++ own ++ later.flatMap Sweep.lines ∧
      (if serving.map = map then serving.request.Moves serving.outcome own else own = []) ∧
      ((∀ moment ∈ serving.moments, moment.Refrains map) →
        ∀ sweep ∈ earlier ++ later, sweep.IsExact)

namespace Serving

variable {map asked : Fin n} {request : Request K V} {outcome : Outcome (Answer V)}
  {moments earlier later : List (Moment n S K V)}

theorem accounted_of_swept (h : Swept map moments) (hmoves : request.Moves outcome []) :
    Accounted map ⟨asked, request, outcome, moments⟩ := by
  obtain ⟨sweeps, hledger, hexact⟩ := h
  refine ⟨sweeps, [], [], by simpa using hledger, ?_, by simpa using hexact⟩
  split
  · exact hmoves
  · rfl

theorem Accounted.prepend (h : Accounted map ⟨asked, request, outcome, moments⟩)
    (hearlier : Swept map earlier) :
    Accounted map ⟨asked, request, outcome, earlier ++ moments⟩ := by
  obtain ⟨sweeps, others, own, hledger, hmoves, hexact⟩ := h
  obtain ⟨first, hfirst, hexact'⟩ := hearlier
  refine ⟨first ++ sweeps, others, own, ?_, hmoves, fun hrefrains sweep hsweep => ?_⟩
  · simp only [ledger_append, hfirst, List.flatMap_append, List.append_assoc] at hledger ⊢
    rw [hledger]
  · rw [List.forall_mem_append] at hrefrains
    rw [List.append_assoc] at hsweep
    rcases List.mem_append.mp hsweep with hsweep | hsweep
    · exact hexact' hrefrains.1 sweep hsweep
    · exact hexact hrefrains.2 sweep hsweep

theorem Accounted.append (h : Accounted map ⟨asked, request, outcome, moments⟩)
    (hlater : Swept map later) :
    Accounted map ⟨asked, request, outcome, moments ++ later⟩ := by
  obtain ⟨sweeps, others, own, hledger, hmoves, hexact⟩ := h
  obtain ⟨last, hlast, hexact'⟩ := hlater
  refine ⟨sweeps, others ++ last, own, ?_, hmoves, fun hrefrains sweep hsweep => ?_⟩
  · simp only [ledger_append, hlast, List.flatMap_append, List.append_assoc] at hledger ⊢
    rw [hledger, List.append_assoc, List.append_assoc]
  · rw [List.forall_mem_append] at hrefrains
    rw [← List.append_assoc] at hsweep
    rcases List.mem_append.mp hsweep with hsweep | hsweep
    · exact hexact hrefrains.1 sweep hsweep
    · exact hexact' hrefrains.2 sweep hsweep

/-- Requests made at other maps move nothing themselves. -/
theorem accounted_of_ne (h : Swept map moments) (hne : asked ≠ map) :
    Accounted map ⟨asked, request, outcome, moments⟩ := by
  obtain ⟨sweeps, hledger, hexact⟩ := h
  exact ⟨sweeps, [], [], by simpa using hledger, by rw [if_neg hne], by simpa using hexact⟩

theorem accounted_of_own (hmoves : request.Moves outcome (ledger map moments)) :
    Accounted map ⟨map, request, outcome, moments⟩ :=
  ⟨[], [], ledger map moments, by simp, by rwa [if_pos rfl], by simp⟩

end Serving

omit [DecidableEq K] in
theorem Step.OfService.isSilent {step : Step n K V} (h : step.OfService) (map : Fin n) :
    step.IsSilent map := by
  cases step with
  | act act =>
      cases act with
      | map other done => cases done <;> first | exact fun _ => trivial | exact h.elim
      | log other record => cases record <;> trivial
      | clock | scheduler | sleep => trivial
  | consult other hook => exact h.elim

namespace Operation

open Program

variable {plan : Plan n S K V} {consultation : Consultation n S K V} {map : Fin n}

theorem swept_of_isSilent {operation : Operation n K V α} (h : operation.Every (Step.IsSilent map))
    (deployment : Deployment n S K V) :
    Swept map (operation.trace (plan.respond consultation) deployment) :=
  swept_of_ledger_eq_nil (ledger_eq_nil fun _ hmoment => h.of_mem_trace hmoment)

/-! ## What is done about jobs, lifecycle and holds -/

section Sweeping

variable
  (hconsult : ∀ other hook, Keeps (Deployment.Records map) (plan.consult consultation other hook))
include hconsult

/-- Entries leave a map only in passes, unless it is asked to move some itself. -/
theorem composes_swept :
    ComposesQuiet fun _ (operation : Operation n K V _) => ∀ deployment,
      Swept map (operation.trace (plan.respond consultation) deployment) where
  done _ _ := swept_of_ledger_eq_nil rfl
  step step hstep := swept_of_isSilent ⟨hstep.isSilent map, fun _ => trivial⟩
  bind hfirst hrest deployment := by
    rw [trace_bind]
    exact (hfirst deployment).append (hrest _ _)
  get asked key := by
    refine swept_of_isSilent (every_guarded (fun _ => trivial) (fun _ => trivial) ?_)
    refine every_bind ⟨trivial, fun _ => trivial⟩ fun now => ?_
    exact ⟨fun _ => trivial, fun _ => trivial⟩
  pass := swept_pass hconsult

end Sweeping

/-! ## The parts of a request -/

section Parts

variable {β : Type} {operation : Operation n K V α} {next : α → Operation n K V β} {asked : Fin n}
  {request : Request K V} {outcome : β → Outcome (Answer V)} {deployment : Deployment n S K V}

/-- What comes before of a request may sweep. -/
theorem accounted_bind (hswept : Swept map (operation.trace (plan.respond consultation) deployment))
    (hnext : ∀ result between, (next result).Ends (plan.respond consultation) (fun last moments _ =>
      Serving.Accounted map ⟨asked, request, outcome last, moments⟩) between) :
    (operation.bind next).Ends (plan.respond consultation) (fun last moments _ =>
      Serving.Accounted map ⟨asked, request, outcome last, moments⟩) deployment :=
  ends_bind.mpr ((hnext _ _).mono fun _ _ _ h => h.prepend hswept)

/-- What comes after of a request may sweep, too. -/
theorem accounted_bind_swept (result : α → Outcome (Answer V))
    (h : operation.Ends (plan.respond consultation) (fun first moments _ =>
      Serving.Accounted map ⟨asked, request, result first, moments⟩) deployment)
    (hnext : ∀ first between, (next first).Ends (plan.respond consultation) (fun last moments _ =>
      outcome last = result first ∧ Swept map moments) between) :
    (operation.bind next).Ends (plan.respond consultation) (fun last moments _ =>
      Serving.Accounted map ⟨asked, request, outcome last, moments⟩) deployment := by
  refine ends_bind.mpr (h.mono fun first earlier between hfirst => ?_)
  refine (hnext first between).mono fun last later _ ⟨hsame, hlater⟩ => ?_
  rw [hsame]
  exact hfirst.append hlater

/-- What has its result already ends a request. -/
theorem ends_done_swept {result : Outcome (Answer V)} {last : β} (hsame : outcome last = result) :
    (Program.done last : Operation n K V β).Ends (plan.respond consultation)
      (fun last moments _ => outcome last = result ∧ Swept map moments) deployment :=
  ends_done.mpr ⟨hsame, swept_of_ledger_eq_nil rfl⟩

/-- A single act on the map moves what its events tell. -/
theorem accounted_onMap (act : MapAct K V) (outcome : act.Answer → Outcome (Answer V))
    (hmoves : ∀ state : MapState K V,
      request.Moves (outcome (act.answer (plan.enumeration asked) state))
        ((act.events state).filterMap MapEvent.line?))
    (deployment : Deployment n S K V) :
    (onMap asked act).Ends (plan.respond consultation) (fun answer moments _ =>
      Serving.Accounted map ⟨asked, request, outcome answer, moments⟩) deployment := by
  have hlines : ledger map ((onMap asked act).trace (plan.respond consultation) deployment) =
      if asked = map then (act.events (deployment.state map)).filterMap MapEvent.line? else [] :=
    List.append_nil _
  by_cases heq : asked = map
  · subst heq
    refine Serving.accounted_of_own ?_
    rw [hlines, if_pos rfl]
    exact hmoves (deployment.state asked)
  · exact Serving.accounted_of_ne (swept_of_ledger_eq_nil (hlines.trans (if_neg heq))) heq

/-- The lock is no matter of the ledger. -/
theorem accounted_guarded {body : Operation n K V α} {outcome : α → Outcome (Answer V)}
    (h : ∀ begun, body.Ends (plan.respond consultation) (fun result moments _ =>
      Serving.Accounted map ⟨asked, request, outcome result, moments⟩) begun)
    (deployment : Deployment n S K V) :
    (guarded asked body).Ends (plan.respond consultation) (fun result moments _ =>
      Serving.Accounted map ⟨asked, request, outcome result, moments⟩) deployment := by
  have hquiet : ∀ act : MapAct K V, act.MovesNothing →
      (onMap asked act).Every (Step.IsSilent map) :=
    fun act hact => ⟨fun _ => hact, fun _ => trivial⟩
  refine accounted_bind (swept_of_isSilent (hquiet .lock trivial) deployment) fun _ begun => ?_
  refine accounted_bind_swept outcome (h begun) fun result between => ends_bind.mpr ?_
  show outcome result = outcome result ∧ Swept map (_ ++ [])
  rw [List.append_nil]
  exact ⟨rfl, swept_of_isSilent (hquiet .unlock trivial) between⟩

/-- An entry to place gets the next number, and its countdown starts when the clock tells. -/
theorem accounted_placing {place : Nat → Instant → Operation n K V α}
    {outcome : α → Outcome (Answer V)}
    (hplace : ∀ seq now begun, (place seq now).Ends (plan.respond consultation)
      (fun result moments _ =>
        Serving.Accounted map ⟨asked, request, outcome result, moments⟩) begun)
    (deployment : Deployment n S K V) :
    (guarded asked do
      let seq ← reserve asked
      let now ← now
      place seq now).Ends (plan.respond consultation) (fun result moments _ =>
        Serving.Accounted map ⟨asked, request, outcome result, moments⟩) deployment := by
  refine accounted_guarded (fun begun => ?_) deployment
  -- before the placing itself nothing is written
  have hreserve : (reserve asked : Operation n K V Nat).Every (Step.IsSilent map) :=
    ⟨fun _ => trivial, fun _ => trivial⟩
  have hnow : (now : Operation n K V Instant).Every (Step.IsSilent map) :=
    ⟨trivial, fun _ => trivial⟩
  refine accounted_bind (swept_of_isSilent hreserve begun) fun seq numbered => ?_
  exact accounted_bind (swept_of_isSilent hnow numbered) fun now timed => hplace seq now timed

end Parts

section Requests

variable
  (hconsult : ∀ other hook, Keeps (Deployment.Records map) (plan.consult consultation other hook))
include hconsult

/-- A stop takes all entries out once the job is given up, which may have it run. -/
theorem accounted_stop (asked : Fin n) (deployment : Deployment n S K V) :
    (stop asked).Ends (plan.respond consultation) (fun status moments _ =>
      Serving.Accounted map ⟨asked, .map .stop, .ok (.status status), moments⟩) deployment := by
  have hcomposes := composes_swept hconsult
  have hcleared : ∀ cancelled : Deployment n S K V, (do
      guarded asked (clear asked)
      setPhase asked .stopped
      return .ok () : Operation n K V (Except Error Unit)).Ends (plan.respond consultation)
      (fun status moments _ => Serving.Accounted map
        ⟨asked, .map .stop, .ok (.status status), moments⟩) cancelled := fun cancelled => by
    refine accounted_bind_swept (fun _ => .ok (.status (.ok ())))
      (accounted_guarded (fun begun => ?_) cancelled) fun _ emptied => ends_bind.mpr ⟨rfl, ?_⟩
    · exact accounted_onMap .clear (fun _ => .ok (.status (.ok ()))) Request.moves_clear begun
    · exact (hcomposes.onMap asked (.setPhase .stopped) trivial emptied).append
        (swept_of_ledger_eq_nil rfl)
  refine accounted_bind (hcomposes.onMap asked (.shift ..) trivial deployment)
    fun shifted begun => ?_
  cases shifted with
  | error error => exact ends_done.mpr (Serving.accounted_of_swept (swept_of_ledger_eq_nil rfl) rfl)
  | ok _ =>
      refine accounted_bind (hcomposes.onMap asked .takeJob trivial begun) fun job taken => ?_
      cases job with
      | none => exact hcleared taken
      | some id =>
          -- a scheduler may run the job within the call that cancels it
          exact accounted_bind (hcomposes.runs.cancel hcomposes.runs.retire asked id taken)
            fun _ cancelled => hcleared cancelled

theorem accounted_serveMap (settings : Settings n S K V) (asked : Fin n) (request : MapRequest K V)
    (deployment : Deployment n S K V) :
    (serveMap settings asked request).Ends (plan.respond consultation) (fun outcome moments _ =>
      Serving.Accounted map ⟨asked, .map request, outcome, moments⟩) deployment := by
  -- most requests have nothing in the ledger but what their hooks have done
  by_cases hquiet : request.IsQuiet
  · have hswept := (composes_swept hconsult).serveMap settings asked hquiet deployment
    exact Serving.accounted_of_swept hswept (Request.moves_nil _ (by rintro _ ⟨⟩; exact hquiet))
  -- each of the others does one act that moves an entry, with silence around it
  cases request with
  | put key value timeout =>
      refine accounted_bind_swept (fun replaced => .ok (.value replaced))
        (accounted_placing (fun seq now => ?_) deployment) fun _ _ => ends_done_swept rfl
      exact accounted_onMap (.insert _ now) (fun replaced => .ok (.value replaced))
        (Request.moves_insert _ { key, value, timeout, seq } now)
  | putIfAbsent key value timeout =>
      refine accounted_bind_swept (fun present => .ok (.value present))
        (accounted_placing (fun seq now => ?_) deployment) fun _ _ => ends_done_swept rfl
      exact accounted_onMap (.insertIfAbsent _ now) (fun present => .ok (.value present))
        (Request.moves_insertIfAbsent _ { key, value, timeout, seq } now)
  | remove key =>
      refine accounted_bind_swept (fun removed => .ok (.value removed))
        (accounted_guarded (fun begun => ?_) deployment) fun _ _ => ends_done_swept rfl
      exact accounted_onMap (.remove key) (fun removed => .ok (.value removed))
        (Request.moves_remove _ key) begun
  | stop =>
      exact accounted_bind_swept (fun status => .ok (.status status))
        (accounted_stop hconsult asked deployment) fun _ _ => ends_done_swept rfl
  | _ => exact absurd trivial hquiet

/-- The ledger of whatever request is served is that of the entries it moves itself, with sweeps
before and after. -/
theorem accounted_serve (settings : Settings n S K V) (asked : Fin n) (request : Request K V)
    (deployment : Deployment n S K V) :
    (serve settings asked request).Ends (plan.respond consultation) (fun outcome moments _ =>
      Serving.Accounted map ⟨asked, request, outcome, moments⟩) deployment := by
  have hcomposes := composes_swept hconsult
  by_cases hmap : ∃ request', request = .map request'
  · obtain ⟨request, rfl⟩ := hmap
    refine accounted_bind_swept (fun served => served.getD (.ok .noHandle)) ?_
      fun _ _ => ends_done_swept rfl
    refine accounted_bind (hcomposes.onMap asked .borrow trivial deployment)
      fun borrowed begun => ?_
    cases borrowed with
    | false =>
        exact ends_done.mpr (Serving.accounted_of_swept (swept_of_ledger_eq_nil rfl)
          (Request.moves_noHandle request))
    | true =>
        refine accounted_bind_swept id (accounted_serveMap hconsult settings asked request begun)
          fun outcome between => ends_bind.mpr ⟨rfl, ?_⟩
        -- the last one to let go of a map gives up its job, which may have it run
        exact (hcomposes.runs.release hcomposes.runs.retire asked between).append
          (swept_of_ledger_eq_nil rfl)
  · have hne : ∀ request', request ≠ .map request' := fun request' heq => hmap ⟨request', heq⟩
    have hswept := hcomposes.runs.serve settings asked request
      (fun request' heq => absurd heq (hne request')) deployment
    exact Serving.accounted_of_swept hswept
      (Request.moves_nil _ fun request' heq => absurd heq (hne request'))

end Requests

end Operation

end ExpiringMap
