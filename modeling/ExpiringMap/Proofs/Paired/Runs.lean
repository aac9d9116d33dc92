import ExpiringMap.Proofs.Acts
import ExpiringMap.Proofs.Operation.Composition

/-!
# Two runs side by side

A plan has variants: what becomes of the panics of hooks may be settled in another way, and scans
may list what they find in another order.  When the same is asked for under a plan and under one of
its variants, the two runs can be told side by side, as long as they go on alike:

* Deployments match if they differ in nothing but the journal, and what the two journals have had
  to tell since some moment is alike (`Deployment.Matches`).  The same act, done in both, is
  answered the same and leaves deployments that match (`Matches.perform`, `answer_eq`).
* What is paired before something is done on both sides is paired afterwards, with results that
  are the same, or related in some other way (`Pairs`).  This is kept by doing one thing after
  another (`pairs_bind`).
* What comes to results that are the same from the same deployment leaves runs that are alike
  (`RunsAlike`).
* If every request is paired whose hooks do as stated, so is every call, however deep the calls of
  hooks are nested (`Pairing.scripts`, `Pairing.calls`).
-/

namespace ExpiringMap

variable {n : Nat} {S K V α β γ δ : Type}

/-! ## Variants of a plan -/

/-- What the call of a hook comes to if its panics are dealt with. -/
def Outcome.rescued (rescue : Panic → Outcome Bool) : Outcome Bool → Outcome Bool
  | .ok verdict => .ok verdict
  | .error panic => rescue panic

/-- The script that does the same, and whose panics are dealt with in the end. -/
def Script.rescued (rescue : Panic → Outcome Bool) : Script n S K V → Script n S K V
  | .answer verdict => .answer (Outcome.rescued rescue verdict)
  | .call made remember next =>
      .call made remember fun outcome memory => (next outcome memory).rescued rescue

def Reaction.rescued (rescue : Hook K V → Panic → Outcome Bool) (reaction : Reaction n S K V) :
    Reaction n S K V := fun hook memory =>
  ((reaction hook memory).1, (reaction hook memory).2.rescued (rescue hook))

def Policy.rescued (rescue : Hook K V → Panic → Outcome Bool) : Policy n S K V → Policy n S K V
  | .permissive => .permissive
  | .listener reaction => .listener (Reaction.rescued rescue reaction)
  | .full reaction => .full (Reaction.rescued rescue reaction)

/-- The plan whose hooks do the same, but for what becomes of their panics, and whose scans list
entries in an order of their own. -/
def Plan.variant (plan : Plan n S K V) (rescue : Fin n → Hook K V → Panic → Outcome Bool)
    (enumeration : Fin n → Enumeration K V) : Plan n S K V where
  settings map :=
    { plan.settings map with policy := (plan.settings map).policy.rescued (rescue map) }
  enumeration

@[simp] theorem Outcome.rescued_error (outcome : Outcome Bool) :
    Outcome.rescued .error outcome = outcome := by
  cases outcome <;> rfl

@[simp] theorem Script.rescued_error (script : Script n S K V) :
    script.rescued .error = script := by
  induction script with
  | answer verdict => exact congrArg _ (Outcome.rescued_error verdict)
  | call made remember next ih =>
      simp only [Script.rescued]
      congr 1
      funext outcome memory
      exact ih outcome memory

@[simp] theorem Reaction.rescued_error (reaction : Reaction n S K V) :
    Reaction.rescued (fun _ => .error) reaction = reaction := by
  funext hook memory
  exact congrArg _ (Script.rescued_error _)

@[simp] theorem Policy.rescued_error (policy : Policy n S K V) :
    policy.rescued (fun _ => .error) = policy := by
  cases policy <;> simp [Policy.rescued]

/-- Panics that are raised again as they are have not been dealt with. -/
theorem Plan.variant_error (plan : Plan n S K V) (enumeration : Fin n → Enumeration K V) :
    plan.variant (fun _ _ => .error) enumeration = { plan with enumeration } := by
  simp [Plan.variant]

theorem Policy.reaction?_rescued (policy : Policy n S K V)
    (rescue : Hook K V → Panic → Outcome Bool) (hook : Hook K V) :
    (policy.rescued rescue).reaction? hook =
      (policy.reaction? hook).map (Reaction.rescued rescue) := by
  cases policy <;> cases hook <;> rfl

/-- What is asked for is done in the same steps. -/
theorem Plan.operation_variant (plan : Plan n S K V)
    (rescue : Fin n → Hook K V → Panic → Outcome Bool) (enumeration : Fin n → Enumeration K V)
    (map : Fin n) (request : Request K V) :
    (plan.variant rescue enumeration).operation map request = plan.operation map request := by
  cases request with
  | map asked => cases asked <;> rfl
  | _ => rfl

/-! ## Deployments that match -/

/-- Whether an event is the answer of a hook. -/
def Event.IsAnswer : Event n K V → Prop
  | answered .. => True
  | _ => False

/-- What two journals have to tell may be alike in some way, which does not change when the same is
told in both of them, unless that is the answer of a hook.  The last event comes first. -/
structure Likeness (alike : List (Event n K V) → List (Event n K V) → Prop) : Prop where
  nil : alike [] []
  cons : ∀ {events others} (event : Event n K V), ¬ event.IsAnswer → alike events others →
    alike (event :: events) (event :: others)

theorem Likeness.append {alike : List (Event n K V) → List (Event n K V) → Prop}
    (h : Likeness alike) {events others : List (Event n K V)} (halike : alike events others)
    {later : List (Event n K V)} (hlater : ∀ event ∈ later, ¬ event.IsAnswer) :
    alike (later ++ events) (later ++ others) := by
  induction later with
  | nil => exact halike
  | cons event rest ih =>
      obtain ⟨hevent, hrest⟩ := List.forall_mem_cons.mp hlater
      exact h.cons event hevent (ih hrest)

namespace Deployment

variable {alike : List (Event n K V) → List (Event n K V) → Prop} {start : List (Event n K V)}
  {first second : Deployment n S K V}

/-- Whether two deployments differ in nothing but the journal, and what it has had to tell since
both journals were the same is alike. -/
structure Matches (alike : List (Event n K V) → List (Event n K V) → Prop)
    (start : List (Event n K V)) (first second : Deployment n S K V) : Prop where
  maps : second.maps = first.maps
  scheduler : second.scheduler = first.scheduler
  clock : second.clock = first.clock
  memory : second.memory = first.memory
  journal : ∃ events others, first.journal = events ++ start ∧ second.journal = others ++ start ∧
    alike events others

namespace Matches

theorem refl (h : Likeness alike) (deployment : Deployment n S K V) :
    deployment.Matches alike deployment.journal deployment :=
  ⟨rfl, rfl, rfl, rfl, [], [], rfl, rfl, h.nil⟩

theorem state_eq (h : first.Matches alike start second) (map : Fin n) :
    second.state map = first.state map :=
  congrArg (fun maps => Vector.get maps map) h.maps

/-- More may be noted in both that is alike. -/
theorem note (h : first.Matches alike start second) {events others : List (Event n K V)}
    (hnoted : ∀ earlier earlier', alike earlier earlier' →
      alike (events.reverse ++ earlier) (others.reverse ++ earlier')) :
    (first.note events).Matches alike start (second.note others) where
  maps := h.maps
  scheduler := h.scheduler
  clock := h.clock
  memory := h.memory
  journal := by
    obtain ⟨earlier, earlier', hfirst, hsecond, halike⟩ := h.journal
    refine ⟨_, _, ?_, ?_, hnoted earlier earlier' halike⟩
    · rw [journal_note, hfirst, List.append_assoc]
    · rw [journal_note, hsecond, List.append_assoc]

theorem note_same (h : first.Matches alike start second) (halike : Likeness alike)
    {events : List (Event n K V)} (hevents : ∀ event ∈ events, ¬ event.IsAnswer) :
    (first.note events).Matches alike start (second.note events) :=
  h.note fun _ _ hearlier => halike.append hearlier fun event hevent =>
    hevents event (List.mem_reverse.mp hevent)

theorem withMemory (h : first.Matches alike start second) (memory : S) :
    ({ first with memory } : Deployment n S K V).Matches alike start { second with memory } :=
  ⟨h.maps, h.scheduler, h.clock, rfl, h.journal⟩

theorem withClock (h : first.Matches alike start second) (clock : Clock) :
    ({ first with clock } : Deployment n S K V).Matches alike start { second with clock } :=
  ⟨h.maps, h.scheduler, rfl, h.memory, h.journal⟩

theorem withScheduler (h : first.Matches alike start second) (scheduler : Scheduler n) :
    ({ first with scheduler } : Deployment n S K V).Matches alike start
      { second with scheduler } :=
  ⟨h.maps, rfl, h.clock, h.memory, h.journal⟩

theorem setState (h : first.Matches alike start second) (map : Fin n) (state : MapState K V) :
    (first.setState map state).Matches alike start (second.setState map state) :=
  ⟨congrArg (fun maps => maps.set map.val state map.isLt) h.maps, h.scheduler, h.clock, h.memory,
    h.journal⟩

/-- The same act leaves deployments that match, however scans are listed. -/
theorem perform [DecidableEq K] (h : first.Matches alike start second) (halike : Likeness alike)
    (enumeration enumeration' : Fin n → Enumeration K V) (act : Act n K V) :
    (first.perform enumeration act).2.Matches alike start
      (second.perform enumeration' act).2 := by
  cases act with
  | map map act =>
      -- the states agree, so what is done and what is noted of it agree, too
      simp only [Deployment.perform, Deployment.onMap, h.state_eq map]
      refine (h.setState map _).note_same halike fun event hevent => ?_
      obtain ⟨happened, -, rfl⟩ := List.mem_map.mp hevent
      exact id
  | clock act =>
      -- the clocks agree, so they move alike
      simp only [Deployment.perform, Deployment.onClock, h.clock]
      refine (h.withClock _).note_same halike fun event hevent => ?_
      split at hevent
      · rw [List.mem_singleton.mp hevent]
        exact id
      · simp at hevent
  | scheduler act =>
      simp only [Deployment.perform, Deployment.onScheduler, h.scheduler]
      refine (h.withScheduler _).note_same halike fun event hevent => ?_
      obtain ⟨happened, -, rfl⟩ := List.mem_map.mp hevent
      exact id
  | log map record => exact h.note_same halike (by simp [Event.IsAnswer])
  | sleep ns =>
      simp only [Deployment.perform, Deployment.elapse, h.clock, h.scheduler]
      have helapsed := (h.withClock (first.clock.elapse ns)).withScheduler
        (first.scheduler.elapse ns)
      refine helapsed.note_same halike fun event hevent => ?_
      split at hevent
      · rw [List.mem_singleton.mp hevent]
        exact id
      · simp at hevent

/-- Nothing but the listing of a scan depends on the enumeration. -/
theorem answer_eq [DecidableEq K] (h : first.Matches alike start second)
    {enumeration enumeration' : Fin n → Enumeration K V} {act : Act n K V}
    (hact : (∀ map now, act ≠ .map map (.scan now)) ∨ enumeration' = enumeration) :
    (second.perform enumeration' act).1 = (first.perform enumeration act).1 := by
  cases act with
  | map map act =>
      -- only a scan is answered as the enumeration has it
      have hanswer : act.answer (enumeration' map) (first.state map) =
          act.answer (enumeration map) (first.state map) := by
        rcases hact with hact | rfl
        · cases act with
          | scan now => exact absurd rfl (hact map now)
          | _ => rfl
        · rfl
      rw [Deployment.perform, Deployment.perform, fst_onMap, fst_onMap, h.state_eq map]
      exact hanswer
  | clock act => exact congrArg (fun clock => (act.apply clock).now) h.clock
  | scheduler act => exact congrArg act.answer h.scheduler
  | log | sleep => rfl

theorem resume (h : first.Matches alike start second) (halike : Likeness alike) (map : Fin n)
    (call : Call n K V) (outcome : Outcome (Answer V)) (remember : S → S) :
    (first.resume map call outcome remember).2.Matches alike start
      (second.resume map call outcome remember).2 := by
  simp only [Deployment.resume, h.memory]
  refine (h.withMemory _).note_same halike fun event hevent => ?_
  cases outcome with
  | ok answer =>
      rw [List.mem_singleton.mp hevent]
      exact id
  | error panic => simp [Event.ofAction] at hevent

/-- A hook begins the same script under a variant, but for what becomes of its panics. -/
theorem enter (h : first.Matches alike start second) (halike : Likeness alike)
    (plan : Plan n S K V) (rescue : Fin n → Hook K V → Panic → Outcome Bool)
    (enumeration : Fin n → Enumeration K V) (map : Fin n) (hook : Hook K V) :
    ((plan.variant rescue enumeration).enter second map hook).1 =
        (plan.enter first map hook).1.map (Script.rescued (rescue map hook)) ∧
      (plan.enter first map hook).2.Matches alike start
        ((plan.variant rescue enumeration).enter second map hook).2 := by
  simp only [Plan.enter, Plan.variant, Policy.reaction?_rescued]
  cases (plan.settings map).policy.reaction? hook with
  | none => exact ⟨rfl, h⟩
  | some reaction =>
      simp only [Option.map_some, Reaction.rescued, h.memory]
      exact ⟨trivial, (h.withMemory _).note_same halike (by simp [Event.IsAnswer])⟩

end Matches

end Deployment

/-! ## What is paired -/

/-- Whether two things that are done in deployments which are paired leave such deployments, and
come to results that are related. -/
def Pairs (paired : Deployment n S K V → Deployment n S K V → Prop) (related : α → β → Prop)
    (first : Deployment n S K V → α × Deployment n S K V)
    (second : Deployment n S K V → β × Deployment n S K V) : Prop :=
  ∀ ⦃before before' : Deployment n S K V⦄, paired before before' →
    related (first before).1 (second before').1 ∧ paired (first before).2 (second before').2

section Pairs

variable {paired : Deployment n S K V → Deployment n S K V → Prop}
  {respond respond' : (step : Step n K V) → Deployment n S K V →
    step.Answer × Deployment n S K V}

theorem pairs_done {related : α → β → Prop} {result : α} {result' : β}
    (h : related result result') :
    Pairs paired related ((.done result : Operation n K V α).run respond)
      ((.done result' : Operation n K V β).run respond') :=
  fun _ _ hpaired => ⟨h, hpaired⟩

theorem pairs_bind {related : α → β → Prop} {related' : γ → δ → Prop}
    {operation : Operation n K V α} {operation' : Operation n K V β}
    {next : α → Operation n K V γ} {next' : β → Operation n K V δ}
    (h : Pairs paired related (operation.run respond) (operation'.run respond'))
    (hnext : ∀ result result', related result result' →
      Pairs paired related' ((next result).run respond) ((next' result').run respond')) :
    Pairs paired related' ((operation.bind next).run respond)
      ((operation'.bind next').run respond') := by
  intro before before' hpaired
  obtain ⟨hresult, hafter⟩ := h hpaired
  rw [Program.run_bind, Program.run_bind]
  exact hnext _ _ hresult hafter

/-- After something that comes to the same on both sides it is enough to go on side by side. -/
theorem pairs_bind_same {related : β → γ → Prop} (operation : Operation n K V α)
    {next : α → Operation n K V β} {next' : α → Operation n K V γ}
    (h : Pairs paired Eq (operation.run respond) (operation.run respond'))
    (hnext : ∀ result,
      Pairs paired related ((next result).run respond) ((next' result).run respond')) :
    Pairs paired related ((operation.bind next).run respond)
      ((operation.bind next').run respond') :=
  pairs_bind h fun result _ heq => heq ▸ hnext result

/-- An operation is paired if its steps are. -/
theorem pairs_of_every (operation : Operation n K V α)
    (h : operation.Every fun step => Pairs paired Eq (respond step) (respond' step)) :
    Pairs paired Eq (operation.run respond) (operation.run respond') := by
  induction operation with
  | done result => exact pairs_done rfl
  | act step rest ih =>
      intro before before' hpaired
      obtain ⟨hanswer, hafter⟩ := h.1 hpaired
      rw [Program.run_act, Program.run_act, ← hanswer]
      exact ih _ (h.2 _) hafter

end Pairs

/-- Whether two runs that began with the same deployment have come to the same, but for what they
have told, which is alike. -/
structure RunsAlike (alike : List (Event n K V) → List (Event n K V) → Prop)
    (found : Deployment n S K V) (first second : α × Deployment n S K V) : Prop where
  result : second.1 = first.1
  /-- The stores with their numbers, the phases, the jobs, the locks and the holds. -/
  state : ∀ map, second.2.state map = first.2.state map
  scheduler : second.2.scheduler = first.2.scheduler
  clock : second.2.clock = first.2.clock
  /-- What the hooks remember. -/
  memory : second.2.memory = first.2.memory
  journal : ∃ events others, first.2.journal = events ++ found.journal ∧
    second.2.journal = others ++ found.journal ∧ alike events others

theorem RunsAlike.of_matches {alike weaker : List (Event n K V) → List (Event n K V) → Prop}
    {found : Deployment n S K V} {first second : α × Deployment n S K V}
    (hresult : first.1 = second.1) (h : first.2.Matches alike found.journal second.2)
    (himplies : ∀ events others, alike events others → weaker events others) :
    RunsAlike weaker found first second := by
  obtain ⟨events, others, hfirst, hsecond, halike⟩ := h.journal
  exact ⟨hresult.symm, h.state_eq, h.scheduler, h.clock, h.memory, events, others, hfirst, hsecond,
    himplies _ _ halike⟩

/-! ## Requests side by side -/

/-- Whether an act neither lists entries nor places one. -/
def MapAct.IsSteady : MapAct K V → Prop
  | scan _ | insert .. | insertIfAbsent .. => False
  | _ => True

/-- Whether a step is an act that neither lists entries nor places one. -/
def Step.IsSteady : Step n K V → Prop
  | .act (.map _ done) => done.IsSteady
  | .act _ => True
  | .consult .. => False

/-- Whether a step is an act that does not list entries. -/
def Step.ListsNothing : Step n K V → Prop
  | .act done => ∀ map now, done ≠ .map map (.scan now)
  | .consult .. => False

theorem Step.IsSteady.listsNothing {step : Step n K V} (h : step.IsSteady) :
    step.ListsNothing := by
  cases step with
  | act act =>
      rintro map now rfl
      exact h
  | consult map hook => exact h

theorem Step.OfService.isSteady {step : Step n K V} (h : step.OfService) : step.IsSteady := by
  cases step with
  | act act =>
      cases act with
      | map map act => cases act <;> first | exact h.elim | trivial
      | clock | scheduler | log | sleep => trivial
  | consult map hook => exact h

section Requests

open Operation

variable {paired : Deployment n S K V → Deployment n S K V → Prop}
  {respond respond' : (step : Step n K V) → Deployment n S K V →
    step.Answer × Deployment n S K V}

/-- What places an entry lists none. -/
theorem listsNothing_put (map : Fin n) (key : K) (value : V) (timeout : Duration) :
    (put map key value timeout).Every Step.ListsNothing := by
  refine every_guarded (by simp [Step.ListsNothing]) (by simp [Step.ListsNothing]) ?_
  exact ⟨by simp [Step.ListsNothing], fun _ => ⟨by simp [Step.ListsNothing], fun _ =>
    ⟨by simp [Step.ListsNothing], fun _ => trivial⟩⟩⟩

theorem listsNothing_putIfAbsent (map : Fin n) (key : K) (value : V) (timeout : Duration) :
    (putIfAbsent map key value timeout).Every Step.ListsNothing := by
  refine every_guarded (by simp [Step.ListsNothing]) (by simp [Step.ListsNothing]) ?_
  exact ⟨by simp [Step.ListsNothing], fun _ => ⟨by simp [Step.ListsNothing], fun _ =>
    ⟨by simp [Step.ListsNothing], fun _ => trivial⟩⟩⟩

theorem pairs_of_steady
    (hact : ∀ step : Step n K V, step.IsSteady → Pairs paired Eq (respond step) (respond' step))
    (operation : Operation n K V α) (h : operation.Every Step.IsSteady) :
    Pairs paired Eq (operation.run respond) (operation.run respond') :=
  pairs_of_every operation (h.mono hact)

/-- What is done under a lock is paired if the lock is taken and given back on both sides. -/
theorem pairs_guarded {map : Fin n} {body : Operation n K V α}
    (hlock : Pairs paired Eq (respond (.act (.map map .lock))) (respond' (.act (.map map .lock))))
    (hunlock : Pairs paired Eq (respond (.act (.map map .unlock)))
      (respond' (.act (.map map .unlock))))
    (hbody : Pairs paired Eq (body.run respond) (body.run respond')) :
    Pairs paired Eq ((guarded map body).run respond) ((guarded map body).run respond') := by
  refine pairs_bind_same (lock map) ?_ fun _ => pairs_bind_same body hbody fun result => ?_
  · exact pairs_of_every (lock map) ⟨hlock, fun _ => trivial⟩
  · refine pairs_bind_same (unlock map) ?_ fun _ => pairs_done rfl
    exact pairs_of_every (unlock map) ⟨hunlock, fun _ => trivial⟩

/-- Whatever is asked for is paired if steady acts, the placing of entries and passes are. -/
theorem pairs_service
    (hact : ∀ step : Step n K V, step.IsSteady → Pairs paired Eq (respond step) (respond' step))
    (hplaces : Composes.Places fun _ (operation : Operation n K V _) =>
      Pairs paired Eq (operation.run respond) (operation.run respond'))
    (hpass : ∀ map, Pairs paired Eq ((pass map).run respond) ((pass map).run respond')) :
    ComposesService fun _ (operation : Operation n K V _) =>
      Pairs paired Eq (operation.run respond) (operation.run respond') where
  done _ := pairs_done rfl
  step step hstep :=
    pairs_of_steady hact (.act step .done) ⟨hstep.isSteady, fun _ => trivial⟩
  bind := pairs_bind_same _
  get map key := by
    -- what these do under the lock lists nothing
    refine pairs_of_steady hact _ (every_guarded trivial trivial ?_)
    exact ⟨trivial, fun _ => ⟨trivial, fun _ => trivial⟩⟩
  put := hplaces.put
  putIfAbsent := hplaces.putIfAbsent
  remove map key := by
    refine pairs_of_steady hact _ (every_guarded trivial trivial ?_)
    exact ⟨trivial, fun _ => trivial⟩
  empty map := by
    refine pairs_of_steady hact _ (every_guarded trivial trivial ?_)
    exact ⟨trivial, fun _ => trivial⟩
  pass := hpass

variable [DecidableEq K] {alike : List (Event n K V) → List (Event n K V) → Prop}
  {start : List (Event n K V)}

/-- The same act is paired under a variant, which may list entries in another order. -/
theorem pairs_act (halike : Likeness alike) (plan : Plan n S K V)
    (rescue : Fin n → Hook K V → Panic → Outcome Bool) {enumeration : Fin n → Enumeration K V}
    {consultation consultation' : Consultation n S K V} {act : Act n K V}
    (hact : (∀ map now, act ≠ .map map (.scan now)) ∨ enumeration = plan.enumeration) :
    Pairs (Deployment.Matches alike start) Eq (plan.respond consultation (.act act))
      ((plan.variant rescue enumeration).respond consultation' (.act act)) :=
  fun _ _ hmatches => ⟨(hmatches.answer_eq hact).symm, hmatches.perform halike _ _ act⟩

/-- What places an entry does so side by side. -/
theorem places_matches (halike : Likeness alike) (plan : Plan n S K V)
    (rescue : Fin n → Hook K V → Panic → Outcome Bool) (enumeration : Fin n → Enumeration K V)
    (consultation consultation' : Consultation n S K V) :
    Composes.Places fun _ (operation : Operation n K V _) =>
      Pairs (Deployment.Matches alike start) Eq (operation.run (plan.respond consultation))
        (operation.run ((plan.variant rescue enumeration).respond consultation')) := by
  have hsteps : ∀ {α : Type} {operation : Operation n K V α}, operation.Every Step.ListsNothing →
      Pairs (Deployment.Matches alike start) Eq (operation.run (plan.respond consultation))
        (operation.run ((plan.variant rescue enumeration).respond consultation')) := by
    -- without a scan a step is the same on both sides
    refine fun h => pairs_of_every _ (h.mono fun step hstep => ?_)
    cases step with
    | act act => exact pairs_act halike plan rescue (.inl hstep)
    | consult map hook => exact hstep.elim
  exact ⟨fun map key value timeout => hsteps (listsNothing_put map key value timeout),
    fun map key value timeout => hsteps (listsNothing_putIfAbsent map key value timeout)⟩

end Requests

/-! ## Calls and scripts side by side -/

section Pairing

/-- Whether scripts come to the same under a plan and a variant of it, but for what becomes of their
panics. -/
def PairsScripts (paired : Deployment n S K V → Deployment n S K V → Prop)
    (consultation consultation' : Consultation n S K V) : Prop :=
  ∀ map (script : Script n S K V) rescue,
    Pairs paired (fun verdict verdict' => verdict' = Outcome.rescued rescue verdict)
      (consultation map script) (consultation' map (script.rescued rescue))

section Consulting

variable {plan : Plan n S K V} {rescue : Fin n → Hook K V → Panic → Outcome Bool}
  {enumeration : Fin n → Enumeration K V}
  {paired : Deployment n S K V → Deployment n S K V → Prop}
  {consultation consultation' : Consultation n S K V}

/-- When a hook is consulted on both sides, it is one that no policy has, or it is left with
verdicts of which the second one is the first one with its panic dealt with. -/
theorem consult_cases (hscripts : PairsScripts paired consultation consultation')
    {before before' : Deployment n S K V} {map : Fin n} {hook : Hook K V}
    (hentered : ((plan.variant rescue enumeration).enter before' map hook).1 =
        (plan.enter before map hook).1.map (Script.rescued (rescue map hook)) ∧
      paired (plan.enter before map hook).2
        ((plan.variant rescue enumeration).enter before' map hook).2) :
    let first := plan.consult consultation map hook before
    let second := (plan.variant rescue enumeration).consult consultation' map hook before'
    (first.1 = .ok true ∧ second.1 = .ok true ∧ paired first.2 second.2) ∨
      ∃ verdict asked asked', paired asked asked' ∧
        first = (verdict, asked.leave map hook verdict) ∧
        second = (Outcome.rescued (rescue map hook) verdict,
          asked'.leave map hook (Outcome.rescued (rescue map hook) verdict)) := by
  simp only [Plan.consult]
  generalize plan.enter before map hook = entered at hentered ⊢
  generalize (plan.variant rescue enumeration).enter before' map hook = entered' at hentered ⊢
  obtain ⟨script, asked⟩ := entered
  obtain ⟨script', asked'⟩ := entered'
  obtain ⟨rfl, hpaired⟩ := hentered
  -- without a hook both say yes at once, and otherwise the scripts have run in step
  cases script with
  | none => exact .inl ⟨rfl, rfl, hpaired⟩
  | some script =>
      obtain ⟨hverdict, hleft⟩ := hscripts map script (rescue map hook) hpaired
      refine .inr ⟨_, _, _, hleft, rfl, ?_⟩
      simp only [Option.map_some, hverdict]

end Consulting

variable [DecidableEq K]

/-- Whether requests are paired under a plan and a variant of it if the scripts of hooks are. -/
structure Pairing (plan : Plan n S K V) (rescue : Fin n → Hook K V → Panic → Outcome Bool)
    (enumeration : Fin n → Enumeration K V)
    (paired : Deployment n S K V → Deployment n S K V → Prop) : Prop where
  memory : ∀ {first second}, paired first second → second.memory = first.memory
  resume : ∀ {first second} map call outcome remember, paired first second →
    paired (first.resume map call outcome remember).2 (second.resume map call outcome remember).2
  gather : ∀ {first second}, paired first second →
    paired (first.note [.gathered]) (second.note [.gathered])
  request : ∀ depth,
    PairsScripts paired (plan.consultation depth)
        ((plan.variant rescue enumeration).consultation depth) →
      ∀ map request, Pairs paired Eq
        ((plan.operation map request).run (plan.respond (plan.consultation depth)))
        ((plan.operation map request).run ((plan.variant rescue enumeration).respond
          ((plan.variant rescue enumeration).consultation depth)))

namespace Pairing

variable {plan : Plan n S K V} {rescue : Fin n → Hook K V → Panic → Outcome Bool}
  {enumeration : Fin n → Enumeration K V}
  {paired : Deployment n S K V → Deployment n S K V → Prop}

theorem script (h : Pairing plan rescue enumeration paired)
    {serve serve' : Call n K V → Deployment n S K V → Outcome (Answer V) × Deployment n S K V}
    (hserve : ∀ call, Pairs paired Eq (serve call) (serve' call)) (map : Fin n)
    (script : Script n S K V) (change : Panic → Outcome Bool) :
    Pairs paired (fun verdict verdict' => verdict' = Outcome.rescued change verdict)
      (script.run serve map) ((script.rescued change).run serve' map) := by
  induction script with
  | answer verdict => exact fun _ _ hpaired => ⟨rfl, hpaired⟩
  | call made remember next ih =>
      intro before before' hpaired
      obtain ⟨houtcome, hserved⟩ := hserve made hpaired
      have hresumed := h.resume map made (serve made before).1
        (remember (serve made before).1) hserved
      have hmemory : (serve' made before').2.memory = (serve made before).2.memory :=
        h.memory hserved
      -- both sides resume with the same memory, so they go on with scripts that correspond
      simp only [Script.rescued, Script.run, ← houtcome, Deployment.resume, hmemory]
      exact ih _ _ (by simpa only [Deployment.resume, hmemory] using hresumed)

section Calls

variable {depth : Nat}

mutual

theorem call_of_scripts (h : Pairing plan rescue enumeration paired)
    (hscripts : PairsScripts paired (plan.consultation depth)
      ((plan.variant rescue enumeration).consultation depth)) (map : Fin n) :
    ∀ call, Pairs paired Eq (plan.serve (plan.consultation depth) map call)
      ((plan.variant rescue enumeration).serve
        ((plan.variant rescue enumeration).consultation depth) map call)
  | .ask path request => fun _ _ hpaired => by
      simp only [Plan.serve, Plan.operation_variant]
      exact h.request depth hscripts (path.last map) request hpaired
  | .together path groups => fun _ _ hpaired => by
      obtain ⟨houtcomes, hserved⟩ := groups_of_scripts h hscripts (path.last map) groups hpaired
      simp only [Plan.serve, ← houtcomes]
      exact ⟨trivial, h.gather hserved⟩
termination_by structural call => call

theorem calls_of_scripts (h : Pairing plan rescue enumeration paired)
    (hscripts : PairsScripts paired (plan.consultation depth)
      ((plan.variant rescue enumeration).consultation depth)) (map : Fin n) :
    ∀ calls, Pairs paired Eq (plan.serveCalls (plan.consultation depth) map calls)
      ((plan.variant rescue enumeration).serveCalls
        ((plan.variant rescue enumeration).consultation depth) map calls)
  | [] => fun _ _ hpaired => ⟨rfl, hpaired⟩
  | call :: rest => fun _ _ hpaired => by
      obtain ⟨houtcome, hserved⟩ := call_of_scripts h hscripts map call hpaired
      obtain ⟨houtcomes, hlast⟩ := calls_of_scripts h hscripts map rest hserved
      simp only [Plan.serveCalls, ← houtcome, ← houtcomes]
      exact ⟨trivial, hlast⟩
termination_by structural calls => calls

theorem groups_of_scripts (h : Pairing plan rescue enumeration paired)
    (hscripts : PairsScripts paired (plan.consultation depth)
      ((plan.variant rescue enumeration).consultation depth)) (map : Fin n) :
    ∀ groups, Pairs paired Eq (plan.serveGroups (plan.consultation depth) map groups)
      ((plan.variant rescue enumeration).serveGroups
        ((plan.variant rescue enumeration).consultation depth) map groups)
  | [] => fun _ _ hpaired => ⟨rfl, hpaired⟩
  | calls :: rest => fun _ _ hpaired => by
      obtain ⟨houtcomes, hserved⟩ := calls_of_scripts h hscripts map calls hpaired
      obtain ⟨hothers, hlast⟩ := groups_of_scripts h hscripts map rest hserved
      simp only [Plan.serveGroups, ← houtcomes, ← hothers]
      exact ⟨trivial, hlast⟩
termination_by structural groups => groups

end

end Calls

/-- Scripts are paired however deep their calls are nested. -/
theorem scripts (h : Pairing plan rescue enumeration paired) (depth : Nat) :
    PairsScripts paired (plan.consultation depth)
      ((plan.variant rescue enumeration).consultation depth) := by
  induction depth with
  | zero => exact fun _ _ _ _ _ hpaired => ⟨rfl, hpaired⟩
  | succ depth ih =>
      exact fun map script change => h.script (h.call_of_scripts ih map) map script change

/-- Calls are paired however deep the calls of hooks are nested. -/
theorem calls (h : Pairing plan rescue enumeration paired) (depth : Nat) (map : Fin n)
    (calls : List (Call n K V)) :
    Pairs paired Eq (plan.serveCalls (plan.consultation depth) map calls)
      ((plan.variant rescue enumeration).serveCalls
        ((plan.variant rescue enumeration).consultation depth) map calls) :=
  h.calls_of_scripts (h.scripts depth) map calls

end Pairing

end Pairing

end ExpiringMap
