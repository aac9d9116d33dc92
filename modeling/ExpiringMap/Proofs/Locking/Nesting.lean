import ExpiringMap.Proofs.Lasting
import ExpiringMap.Proofs.Operation.Composition
import ExpiringMap.Proofs.Pass.Course

/-!
# How the taking of locks is nested

From the beginning to the end of an operation every lock that is taken is given back, the one that
was taken last first, and in between is everything that needs it: each change of the store of the
map, and the calls of its hooks with all that they lead to (`Nested`).  A hook that panics makes no
difference, since what is done under a lock ends with a result also then.

* An operation on entries takes the lock once, and all its steps are steps within it
  (`nests_guarded`).
* The call of a hook is nested within the lock of its map if everything that is served for its
  calls is nested on its own (`nests_consult`).
* What is done about jobs, lifecycle and holds needs no lock (`nests_ofService`), and is put
  together from that and from operations on entries.
-/

namespace ExpiringMap

variable {n : Nat} {S K V α β : Type}

/-! ## What has to do with locks -/

def MapEvent.OnLock : MapEvent K V → Prop
  | locked | unlocked => True
  | _ => False

def MapAct.OnLock : MapAct K V → Prop
  | lock | unlock => True
  | _ => False

/-- Whether a lock is taken or given back in an event. -/
def Event.OnLock : Event n K V → Prop
  | ofMap _ event => event.OnLock
  | _ => False

/-- Whether an event may only happen under the lock of a map: a change of its store, or something
in the call of one of its hooks. -/
def Event.Needs (map : Fin n) : Event n K V → Prop
  | ofMap other event => other = map ∧ event.OnStore
  | called other _ | answered other .. | acted other .. => other = map
  | _ => False

/-- Whether some events, the first of which comes first, may happen while the locks of some maps are
held: locks that are taken are given back in the opposite order, and whatever needs a lock happens
while it is held. -/
inductive Nested : List (Fin n) → List (Event n K V) → Prop
  | nil {held : List (Fin n)} : Nested held []
  | single {held : List (Fin n)} {event : Event n K V} (honLock : ¬ event.OnLock)
      (hneeds : ∀ map, event.Needs map → map ∈ held) : Nested held [event]
  | append {held : List (Fin n)} {earlier later : List (Event n K V)} :
      Nested held earlier → Nested held later → Nested held (earlier ++ later)
  | guarded {held : List (Fin n)} {events : List (Event n K V)} (map : Fin n) :
      Nested (map :: held) events →
        Nested held (.ofMap map .locked :: (events ++ [.ofMap map .unlocked]))

/-- What needs the lock of a map that is not held yet happens between the taking of the lock and its
return. -/
theorem Nested.exists_guarded {held : List (Fin n)} {events : List (Event n K V)}
    (h : Nested held events) {event : Event n K V} (hevent : event ∈ events) {map : Fin n}
    (hneeds : event.Needs map) (hfree : map ∉ held) :
    ∃ before inside after within,
      events = before ++ .ofMap map .locked :: (inside ++ .ofMap map .unlocked :: after) ∧
        Nested (map :: within) inside ∧ event ∈ inside := by
  -- the outermost bracket of that map is looked for, since no lock of it is held outside
  induction h with
  | nil => simp at hevent
  | single honLock hheld =>
      rw [List.mem_singleton.mp hevent] at hneeds
      exact absurd (hheld map hneeds) hfree
  | @append held earlier later _ _ ihearlier ihlater =>
      rcases List.mem_append.mp hevent with hevent | hevent
      · obtain ⟨before, inside, after, within, heq, hinside⟩ := ihearlier hevent hfree
        exact ⟨before, inside, after ++ later, within, by simp [heq], hinside⟩
      · obtain ⟨before, inside, after, within, heq, hinside⟩ := ihlater hevent hfree
        exact ⟨earlier ++ before, inside, after, within, by simp [heq], hinside⟩
  | @guarded held inner other hinner ih =>
      have hinside : event ∈ inner := by
        rcases List.mem_cons.mp hevent with rfl | hevent
        · exact hneeds.2.elim
        · rcases List.mem_append.mp hevent with hevent | hevent
          · exact hevent
          · rw [List.mem_singleton.mp hevent] at hneeds
            exact hneeds.2.elim
      by_cases heq : other = map
      · subst heq
        exact ⟨[], inner, [], held, by simp, hinner, hinside⟩
      · -- the bracket is of another map, so this map is free within it, too
        have hfree' : map ∉ other :: held := by
          rw [List.mem_cons, not_or]
          exact ⟨fun h => heq h.symm, hfree⟩
        obtain ⟨before, inside, after, within, hsplit, hdeeper⟩ := ih hinside hfree'
        exact ⟨.ofMap other .locked :: before, inside, after ++ [.ofMap other .unlocked], within,
          by simp [hsplit], hdeeper⟩

theorem nested_of_forall {held : List (Fin n)} {events : List (Event n K V)}
    (h : ∀ event ∈ events, ¬ event.OnLock ∧ ∀ map, event.Needs map → map ∈ held) :
    Nested held events := by
  induction events with
  | nil => exact .nil
  | cons event rest ih =>
      obtain ⟨⟨honLock, hneeds⟩, hrest⟩ := List.forall_mem_cons.mp h
      exact .append (.single honLock hneeds) (ih hrest)

/-- An event of an act on a map is the taking or the return of the lock only if the act is. -/
theorem MapAct.not_onLock_of_mem [DecidableEq K] {act : MapAct K V} (h : ¬ act.OnLock)
    {state : MapState K V} {event : MapEvent K V} (hevent : event ∈ act.events state) :
    ¬ event.OnLock := by
  cases act with
  | lock => exact absurd trivial h
  | unlock => exact absurd trivial h
  | clear =>
      obtain ⟨entry, -, rfl⟩ := List.mem_map.mp hevent
      exact id
  -- the events are found by cases on what the store has
  | read | insert | insertIfAbsent | remove | removeIfSame | shift =>
      simp only [events] at hevent
      grind [MapEvent.OnLock]
  | reserve | setPhase | keepJob =>
      rw [List.mem_singleton.mp hevent]
      exact id
  | scan | size | readPhase | takeJob | borrow | hold | letGo | addHandle | takeHandle =>
      simp [events] at hevent

theorem MapAct.guards_apply [DecidableEq K] {act : MapAct K V} (h : ¬ act.OnLock)
    (state : MapState K V) : (act.apply state).guards = state.guards := by
  cases act with
  | lock => exact absurd trivial h
  | unlock => exact absurd trivial h
  | borrow | hold | takeHandle =>
      simp only [apply]
      split <;> rfl
  | reserve | read | insert | insertIfAbsent | remove | removeIfSame | scan | size | clear
  | readPhase | setPhase | shift | keepJob | takeJob | letGo | addHandle => rfl

/-- An act that leaves entries and lock alone tells neither of the store nor of the lock. -/
theorem MapAct.OfService.not_onStore [DecidableEq K] {act : MapAct K V} (h : act.OfService)
    {state : MapState K V} {event : MapEvent K V} (hevent : event ∈ act.events state) :
    ¬ event.OnStore := by
  cases act with
  | shift =>
      simp only [events] at hevent
      grind [MapEvent.OnStore]
  | setPhase | keepJob =>
      rw [List.mem_singleton.mp hevent]
      exact id
  | size | readPhase | takeJob | borrow | hold | letGo | addHandle | takeHandle =>
      simp [events] at hevent
  | lock | unlock | reserve | read | insert | insertIfAbsent | remove | removeIfSame | scan
  | clear => exact h.elim

theorem MapAct.OfService.not_onLock {act : MapAct K V} (h : act.OfService) : ¬ act.OnLock := by
  cases act <;> first | exact h.elim | exact id

/-! ## Nesting from one deployment to the next -/

namespace Deployment

/-- Whether what happens from one deployment to a later one may happen while some locks are held,
and every lock is held as often at the end as it was at the beginning. -/
structure Nests (held : List (Fin n)) (earlier later : Deployment n S K V) : Prop where
  events : ∃ events, later.journal = events.reverse ++ earlier.journal ∧ Nested held events
  guards : ∀ map, (later.state map).guards = (earlier.state map).guards

variable {held : List (Fin n)}

theorem Nests.refl (held : List (Fin n)) (deployment : Deployment n S K V) :
    deployment.Nests held deployment :=
  ⟨⟨[], rfl, .nil⟩, fun _ => rfl⟩

theorem Nests.trans {first second third : Deployment n S K V} (h : first.Nests held second)
    (h' : second.Nests held third) : first.Nests held third := by
  obtain ⟨earlier, hearlier, hfirst⟩ := h.events
  obtain ⟨later, hlater, hsecond⟩ := h'.events
  refine ⟨⟨earlier ++ later, ?_, .append hfirst hsecond⟩, fun map => ?_⟩
  · rw [hlater, hearlier, List.reverse_append, List.append_assoc]
  · rw [h'.guards map, h.guards map]

theorem Nests.of_note {earlier later : Deployment n S K V} {events : List (Event n K V)}
    (hstate : ∀ map, later.state map = earlier.state map)
    (hjournal : later.journal = events.reverse ++ earlier.journal)
    (hevents : ∀ event ∈ events, ¬ event.OnLock ∧ ∀ map, event.Needs map → map ∈ held) :
    earlier.Nests held later :=
  ⟨⟨events, hjournal, nested_of_forall hevents⟩, fun map => by rw [hstate map]⟩

/-- Hooks are called, act and answer under the lock of their map. -/
theorem nests_enter (deployment : Deployment n S K V) (plan : Plan n S K V) {map : Fin n}
    (hheld : map ∈ held) (hook : Hook K V) :
    deployment.Nests held (plan.enter deployment map hook).2 := by
  unfold Plan.enter
  split
  · exact .refl held deployment
  · exact .of_note (fun _ => rfl) rfl (by simpa [Event.OnLock, Event.Needs] using hheld)

theorem nests_resume (deployment : Deployment n S K V) {map : Fin n} (hheld : map ∈ held)
    (call : Call n K V) (outcome : Outcome (Answer V)) (remember : S → S) :
    deployment.Nests held (deployment.resume map call outcome remember).2 := by
  refine .of_note (fun _ => rfl) rfl fun event hevent => ?_
  cases outcome with
  | ok answer =>
      obtain rfl := List.mem_singleton.mp hevent
      exact ⟨id, fun _ hneeds => hneeds ▸ hheld⟩
  | error panic => simp [Event.ofAction] at hevent

theorem nests_leave (deployment : Deployment n S K V) {map : Fin n} (hheld : map ∈ held)
    (hook : Hook K V) (verdict : Outcome Bool) :
    deployment.Nests held (deployment.leave map hook verdict) :=
  .of_note (fun _ => rfl) rfl (by simpa [Event.OnLock, Event.Needs] using hheld)

variable [DecidableEq K] (enumeration : Fin n → Enumeration K V)

/-- An act on a map that has nothing to do with its lock, and that needs it only if it is held. -/
theorem nests_onMap (deployment : Deployment n S K V) (map : Fin n) {act : MapAct K V}
    (honLock : ¬ act.OnLock)
    (hneeds : ∀ event ∈ act.events (deployment.state map), event.OnStore → map ∈ held) :
    deployment.Nests held (deployment.onMap enumeration map act).2 := by
  refine ⟨⟨_, journal_onMap .., nested_of_forall fun event hevent => ?_⟩, fun other => ?_⟩
  · obtain ⟨happened, hmem, rfl⟩ := List.mem_map.mp hevent
    refine ⟨MapAct.not_onLock_of_mem honLock hmem, ?_⟩
    rintro other ⟨rfl, honStore⟩
    exact hneeds happened hmem honStore
  · rw [state_onMap]
    split
    · next heq => rw [act.guards_apply honLock, heq]
    · rfl

/-- What is no act on a map needs no lock. -/
theorem nests_perform (deployment : Deployment n S K V) {act : Act n K V}
    (hact : ∀ map done, act ≠ .map map done) :
    deployment.Nests held (deployment.perform enumeration act).2 := by
  cases act with
  | map map done => exact absurd rfl (hact map done)
  | clock act =>
      refine .of_note (fun _ => rfl) rfl fun event hevent => ?_
      split at hevent <;> simp_all [Event.OnLock, Event.Needs]
  | scheduler act => exact .of_note (fun _ => rfl) rfl (by simp [Event.OnLock, Event.Needs])
  | log map record => exact .of_note (fun _ => rfl) rfl (by simp [Event.OnLock, Event.Needs])
  | sleep ns =>
      refine .of_note (fun _ => rfl) rfl fun event hevent => ?_
      split at hevent <;> simp_all [Event.OnLock, Event.Needs]

end Deployment

/-! ## Steps under a lock -/

/-- Whether a step may be taken under the lock of a map: it acts on no other map, consults the hooks
of no other map, and leaves the lock alone. -/
def Step.Within (map : Fin n) : Step n K V → Prop
  | .act (.map other done) => other = map ∧ ¬ done.OnLock
  | .consult other _ => other = map
  | _ => True

theorem Step.Asks.within {map : Fin n} {step : Step n K V} (h : step.Asks map) :
    step.Within map := by
  cases step with
  | act act =>
      cases act with
      | log other record => trivial
      | map | clock | scheduler | sleep => exact h.elim
  | consult other hook => exact h

theorem Step.Removes.within {map : Fin n} {entries : List (Entry K V)} {step : Step n K V}
    (h : step.Removes map entries) : step.Within map := by
  obtain ⟨entry, -, rfl⟩ := h
  exact ⟨rfl, id⟩

namespace Operation

open Program

/-- A pass is made under the lock of its map. -/
theorem exists_within_pass (map : Fin n) :
    ∃ body : Operation n K V (Outcome Unit),
      pass map = guarded map body ∧ body.Every (Step.Within map) := by
  refine ⟨_, rfl, ?_⟩
  -- the body looks, asks and removes, each with the lock in hand
  refine every_bind ⟨⟨rfl, id⟩, fun _ => trivial⟩ fun count => ?_
  refine every_bind ⟨trivial, fun _ => trivial⟩ fun _ => ?_
  refine every_bind ⟨⟨rfl, id⟩, fun _ => trivial⟩ fun size => ?_
  split
  · trivial
  refine every_bind ⟨trivial, fun _ => trivial⟩ fun now => ?_
  refine every_bind ⟨⟨rfl, id⟩, fun _ => trivial⟩ fun found => ?_
  refine every_bind ((asks_screen map found).mono fun _ h => h.within) fun screened => ?_
  rcases screened with panic | _ | ⟨first, others⟩
  · trivial
  · trivial
  refine every_bind ?_ fun _ => trivial
  refine every_bind ((asks_notifyAll map _).mono fun _ h => h.within) fun confirmed => ?_
  refine every_bind ((removes_removeAll map confirmed).mono fun _ h => h.within) fun evicted => ?_
  exact ⟨trivial, fun _ => trivial⟩

variable [DecidableEq K] {plan : Plan n S K V} {consultation : Consultation n S K V}

variable (plan consultation) in
/-- Whether the locks are nested in what an operation does, whatever is held when it begins. -/
def Nests (operation : Operation n K V α) : Prop :=
  ∀ held deployment, Deployment.Nests held deployment
    (operation.run (plan.respond consultation) deployment).2

theorem nests_done (result : α) :
    Nests plan consultation (.done result : Operation n K V α) :=
  fun held deployment => .refl held deployment

theorem nests_bind {operation : Operation n K V α} {next : α → Operation n K V β}
    (h : operation.Nests plan consultation)
    (hnext : ∀ result, (next result).Nests plan consultation) :
    Nests plan consultation (operation.bind next) := by
  intro held deployment
  rw [run_bind]
  exact (h held deployment).trans (hnext _ held _)

/-- A step that is taken for jobs, lifecycle or holds needs no lock. -/
theorem nests_ofService {step : Step n K V} (hstep : step.OfService) :
    Nests plan consultation (.act step .done : Operation n K V step.Answer) := by
  intro held deployment
  cases step with
  | consult map hook => exact hstep.elim
  | act act =>
      by_cases hact : ∃ map done, act = .map map done
      · obtain ⟨map, done, rfl⟩ := hact
        have hservice : done.OfService := hstep
        exact deployment.nests_onMap plan.enumeration map hservice.not_onLock
          fun event hevent honStore => (hservice.not_onStore hevent honStore).elim
      · exact deployment.nests_perform plan.enumeration fun map done heq => hact ⟨map, done, heq⟩

/-- What takes a lock, takes steps within it and gives it back is nested. -/
theorem nests_guarded (map : Fin n) {body : Operation n K V α}
    (hconsult : ∀ held, map ∈ held → ∀ hook deployment,
      Deployment.Nests held deployment (plan.consult consultation map hook deployment).2)
    (hbody : body.Every (Step.Within map)) : (guarded map body).Nests plan consultation := by
  intro held deployment
  have hwithin : ∀ before, Deployment.Nests (map :: held) before
      (body.run (plan.respond consultation) before).2 := by
    intro before
    refine run_of_trace _ (Deployment.Nests (map :: held)) (.refl _) .trans body
      fun moment hmoment => ?_
    have hstep := hbody.of_mem_trace hmoment
    have hrespond := respond_of_mem_trace _ hmoment
    obtain ⟨act | ⟨other, hook⟩, answer, found, left⟩ := moment
    · obtain rfl : (found.perform plan.enumeration act).2 = left := congrArg Prod.snd hrespond
      by_cases hact : ∃ other done, act = .map other done
      · obtain ⟨other, done, rfl⟩ := hact
        obtain ⟨rfl, honLock⟩ := hstep
        exact found.nests_onMap plan.enumeration other honLock
          fun _ _ _ => List.mem_cons_self ..
      · exact found.nests_perform plan.enumeration fun other done heq =>
          hact ⟨other, done, heq⟩
    · obtain rfl : (plan.consult consultation other hook found).2 = left :=
        congrArg Prod.snd hrespond
      obtain rfl : other = map := hstep
      exact hconsult _ (List.mem_cons_self ..) hook found
  -- the body is run between taking the lock and giving it back
  set locked := (deployment.onMap plan.enumeration map .lock).2 with hlocked
  set worked := (body.run (plan.respond consultation) locked).2 with hworked
  have hlast : ((guarded map body).run (plan.respond consultation) deployment).2 =
      (worked.onMap plan.enumeration map .unlock).2 := by
    simp only [guarded, lock, unlock, onMap, bind_eq, act_bind, done_bind, run_act, run_bind]
    rfl
  obtain ⟨⟨events, hjournal, hnested⟩, hguards⟩ := hwithin locked
  rw [hlast]
  refine ⟨⟨.ofMap map .locked :: (events ++ [.ofMap map .unlocked]), ?_, .guarded map hnested⟩,
    fun other => ?_⟩
  · rw [Deployment.journal_onMap, hjournal, hlocked, Deployment.journal_onMap]
    simp [MapAct.events]
  · rw [Deployment.state_onMap]
    have hother := hguards other
    rw [hlocked, Deployment.state_onMap] at hother
    split
    · next heq =>
      subst heq
      rw [if_pos rfl] at hother
      show (worked.state other).guards - 1 = (deployment.state other).guards
      rw [hother]
      exact Nat.add_sub_cancel ..
    · next hne => rwa [if_neg hne] at hother

/-- If the calls of hooks are nested, so is everything that is put together of steps of service and
operations on entries. -/
theorem composes_nests
    (hconsult : ∀ map held, map ∈ held → ∀ hook deployment,
      Deployment.Nests held deployment (plan.consult consultation map hook deployment).2) :
    ComposesService fun _ operation => operation.Nests plan consultation where
  done := nests_done
  step _ := nests_ofService
  bind := nests_bind
  get map key := nests_guarded map (hconsult map)
    ⟨trivial, fun _ => ⟨⟨rfl, id⟩, fun _ => trivial⟩⟩
  put map key value timeout := nests_guarded map (hconsult map)
    ⟨⟨rfl, id⟩, fun _ => ⟨trivial, fun _ => ⟨⟨rfl, id⟩, fun _ => trivial⟩⟩⟩
  putIfAbsent map key value timeout := nests_guarded map (hconsult map)
    ⟨⟨rfl, id⟩, fun _ => ⟨trivial, fun _ => ⟨⟨rfl, id⟩, fun _ => trivial⟩⟩⟩
  remove map key := nests_guarded map (hconsult map) ⟨⟨rfl, id⟩, fun _ => trivial⟩
  empty map := nests_guarded map (hconsult map) ⟨⟨rfl, id⟩, fun _ => trivial⟩
  pass map := by
    obtain ⟨body, heq, hbody⟩ := exists_within_pass (K := K) (V := V) map
    exact heq ▸ nests_guarded map (hconsult map) hbody

end Operation

/-! ## The calls of hooks -/

section Hooks

variable {plan : Plan n S K V} {consultation : Consultation n S K V}

theorem nests_consult
    (hscripts : ∀ map held, map ∈ held → ∀ script deployment,
      Deployment.Nests held deployment (consultation map script deployment).2)
    (map : Fin n) (held : List (Fin n)) (hheld : map ∈ held) (hook : Hook K V)
    (deployment : Deployment n S K V) :
    deployment.Nests held (plan.consult consultation map hook deployment).2 := by
  have henter := deployment.nests_enter plan hheld hook
  unfold Plan.consult
  split
  · next heq => rwa [heq] at henter
  · next script entered heq =>
    rw [heq] at henter
    exact henter.trans ((hscripts map held hheld script entered).trans
      (Deployment.nests_leave _ hheld hook _))

/-- A script whose calls are nested on their own is nested under the lock of its map. -/
theorem Script.nests_run
    {serve : Call n K V → Deployment n S K V → Outcome (Answer V) × Deployment n S K V}
    (hserve : ∀ call held deployment, Deployment.Nests held deployment (serve call deployment).2)
    {map : Fin n} {held : List (Fin n)} (hheld : map ∈ held) (script : Script n S K V)
    (deployment : Deployment n S K V) :
    deployment.Nests held (script.run serve map deployment).2 := by
  induction script generalizing deployment with
  | answer verdict => exact .refl held deployment
  | call made remember next ih =>
      have hcall := hserve made held deployment
      have hresume := (serve made deployment).2.nests_resume hheld made (serve made deployment).1
        (remember (serve made deployment).1)
      exact hcall.trans (hresume.trans (ih _ _ _))

theorem nests_consultation [DecidableEq K] (plan : Plan n S K V) (depth : Nat) (map : Fin n)
    (held : List (Fin n)) (hheld : map ∈ held) (script : Script n S K V)
    (deployment : Deployment n S K V) :
    deployment.Nests held (plan.consultation depth map script deployment).2 := by
  induction depth generalizing map held script deployment with
  | zero => exact .refl held deployment
  | succ depth ih =>
      -- whatever is held, a call of the script nests its own locks deeper
      have hcarries : Carries plan (plan.consultation depth) fun earlier later =>
          ∀ held, Deployment.Nests held earlier later :=
        { refl := fun deployment held => .refl held deployment
          trans := fun first second held => (first held).trans (second held)
          gather := fun deployment held =>
            .of_note (fun _ => rfl) rfl (by simp [Event.OnLock, Event.Needs])
          request := fun map request deployment held =>
            (Operation.composes_nests (nests_consult fun map held hheld script deployment =>
              ih map held hheld script deployment)).serve (plan.settings map) map request held
              deployment }
      exact script.nests_run (fun call held deployment => hcarries.call map call deployment held)
        hheld deployment

end Hooks

/-! ## Whatever is asked for -/

/-- Whatever is asked for, whatever hooks do and however deep their calls are nested, and whether it
ends with an answer or in a panic: the locks that an operation takes are given back in the opposite
order, each is held as often in the end as it was before, and every hook is called and every store
changed while the lock of the map is held.  A scheduled run in a phase that allows none does no more
than to say so in the log. -/
theorem operation_nests_locks [DecidableEq K] (plan : Plan n S K V) (depth : Nat) (map : Fin n)
    (request : Request K V) (deployment : Deployment n S K V) :
    let respond := plan.respond (plan.consultation depth)
    let last := ((plan.operation map request).run respond deployment).2
    (∃ events, last.journal = events.reverse ++ deployment.journal ∧ Nested [] events ∧
      ∀ event ∈ events, ∀ other, event.Needs other →
        ∃ before inside after within,
          events = before ++ .ofMap other .locked :: (inside ++ .ofMap other .unlocked :: after) ∧
            Nested (other :: within) inside ∧ event ∈ inside) ∧
    (∀ other, (last.state other).guards = (deployment.state other).guards) ∧
    (∀ (state : MapState K V) (act : MapAct K V), (act.apply state).store ≠ state.store →
      ∃ event ∈ act.events state, ∀ other : Fin n, (Event.ofMap other event).Needs other) ∧
    ∀ other, (deployment.state other).phase.allowsRuns = false →
      (Operation.scheduledPass other).run respond deployment =
        ((), deployment.note [.logged other .runNotAllowed]) := by
  intro respond last
  have hnests : deployment.Nests [] last :=
    (Operation.composes_nests (nests_consult fun map held hheld script deployment =>
      nests_consultation plan depth map held hheld script deployment)).serve (plan.settings map)
        map request [] deployment
  refine ⟨?_, hnests.guards, ?_, ?_⟩
  · obtain ⟨events, hjournal, hnested⟩ := hnests.events
    exact ⟨events, hjournal, hnested, fun event hevent other hneeds =>
      hnested.exists_guarded hevent hneeds List.not_mem_nil⟩
  · -- a change of the store is noted by some event
    intro state act hchanged
    by_contra hnone
    refine hchanged (MapAct.store_eq_of_events fun event hevent honStore => hnone ?_)
    exact ⟨event, hevent, fun other => ⟨rfl, honStore⟩⟩
  · -- the phase is read, does not allow a run, and a record is all that comes of it
    intro other hphase
    have hread : deployment.onMap plan.enumeration other .readPhase =
        ((deployment.state other).phase, deployment) := by
      refine Prod.ext rfl ?_
      show (deployment.setState other (deployment.state other)).note [] = deployment
      simp [Deployment.setState, Deployment.note, Deployment.state, Vector.get]
    simp only [Operation.scheduledPass, Operation.readPhase, Operation.onMap, Operation.log,
      Program.bind_eq, Program.act_bind, Program.done_bind, Program.run_act]
    rw [show respond (.act (.map other .readPhase)) deployment =
      ((deployment.state other).phase, deployment) from hread]
    rw [hphase]
    rfl

end ExpiringMap
