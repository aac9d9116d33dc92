import ExpiringMap.Consultation
import ExpiringMap.Proofs.Store.Removal

/-!
# What single acts do to a deployment

An act on a map changes that map and no other; an act on the clock or the scheduler, a record in
the log and the passing of time change no map at all.  An act on a map only adds to the journal.
What leaves the maps aside altogether, as the calls of hooks do before anything is asked for in
them, is said in one word: `Deployment.Aside`.
-/

namespace ExpiringMap

variable {n : Nat} {S K V : Type}

namespace Deployment

@[simp] theorem journal_note (deployment : Deployment n S K V) (events : List (Event n K V)) :
    (deployment.note events).journal = events.reverse ++ deployment.journal := rfl

@[simp] theorem state_onClock (deployment : Deployment n S K V) (act : ClockAct) (map : Fin n) :
    (deployment.onClock act).2.state map = deployment.state map := rfl

@[simp] theorem fst_onClock_note (deployment : Deployment n S K V) (events : List (Event n K V))
    (act : ClockAct) :
    ((deployment.note events).onClock act).1 = (deployment.onClock act).1 := rfl

variable [DecidableEq K] (enumeration : Fin n → Enumeration K V)

@[simp] theorem fst_onMap (deployment : Deployment n S K V) (map : Fin n) (act : MapAct K V) :
    (deployment.onMap enumeration map act).1 =
      act.answer (enumeration map) (deployment.state map) := rfl

@[simp] theorem state_onMap (deployment : Deployment n S K V) (map other : Fin n)
    (act : MapAct K V) :
    (deployment.onMap enumeration map act).2.state other =
      if other = map then act.apply (deployment.state map) else deployment.state other := by
  simp [onMap]

@[simp] theorem fst_onClock_onMap (deployment : Deployment n S K V) (map : Fin n)
    (done : MapAct K V) (act : ClockAct) :
    ((deployment.onMap enumeration map done).2.onClock act).1 = (deployment.onClock act).1 := rfl

@[simp] theorem journal_onMap (deployment : Deployment n S K V) (map : Fin n)
    (act : MapAct K V) :
    (deployment.onMap enumeration map act).2.journal =
      ((act.events (deployment.state map)).map (Event.ofMap map)).reverse ++
        deployment.journal := rfl

/-- The store of a map after an act, which only an act on that map can have changed. -/
theorem store_perform (deployment : Deployment n S K V) (act : Act n K V) (map : Fin n) :
    ((deployment.perform enumeration act).2.state map).store =
      match act with
      | .map other act =>
          if map = other then (act.apply (deployment.state map)).store
          else (deployment.state map).store
      | _ => (deployment.state map).store := by
  cases act with
  | map other act =>
      simp only [perform, state_onMap]
      split
      · next h => rw [h]
      · rfl
  | clock | scheduler | log | sleep => rfl

end Deployment

/-! ## What is told of a store -/

/-- Whether an event is a change of a store: of its entries or of the numbers it gives out. -/
def MapEvent.OnStore : MapEvent K V → Prop
  | placed .. | touched .. | left .. | numbered _ => True
  | _ => False

/-- An act on a map leaves the store as it is, unless the journal tells otherwise. -/
theorem MapAct.store_eq_of_events [DecidableEq K] {act : MapAct K V} {state : MapState K V}
    (h : ∀ event ∈ act.events state, ¬ event.OnStore) :
    (act.apply state).store = state.store := by
  cases act with
  | reserve => exact (h _ (List.mem_singleton_self _) trivial).elim
  | read key now =>
      cases hlookup : state.store.lookup key with
      | none => exact Store.touch_eq_self hlookup now
      | some entry =>
          exact (h (.touched (entry.touch now) now) (by simp [events, hlookup]) trivial).elim
  -- whatever was there before, a placing is told of
  | insert entry now =>
      refine (h (.placed (entry.touch now) now) ?_ trivial).elim
      simp only [events]
      split <;> simp
  | insertIfAbsent entry now =>
      cases hlookup : state.store.lookup entry.key with
      | none => exact (h (.placed (entry.touch now) now) (by simp [events, hlookup]) trivial).elim
      | some present => simp [apply, Store.insertIfAbsent, hlookup]
  | remove key =>
      cases hlookup : state.store.lookup key with
      | none => exact Store.erase_eq_self hlookup
      | some entry => exact (h (.left entry .removed) (by simp [events, hlookup]) trivial).elim
  | removeIfSame key seq =>
      cases hlookup : state.store.lookup key with
      | none => simp [apply, Store.removeIfSame, hlookup]
      | some entry =>
          -- the entry of the key has another number, since its departure would be told of
          have hne : entry.seq ≠ seq := fun hseq =>
            h (.left entry .evicted) (by simp [events, hlookup, hseq]) trivial
          simp [apply, Store.removeIfSame, hlookup, hne]
  | clear =>
      have hempty : state.store.entries = [] := List.eq_nil_iff_forall_not_mem.mpr
        fun entry hentry => h (.left entry .cleared) (List.mem_map_of_mem hentry) trivial
      exact Store.ext hempty.symm rfl
  | borrow | hold | takeHandle =>
      simp only [apply]
      split <;> rfl
  | lock | unlock | scan | size | readPhase | setPhase | shift | keepJob | takeJob | letGo
  | addHandle => rfl

/-- An entry leaves a store when its key is put again or removed, when a pass evicts it, or when the
store is cleared. -/
theorem MapAct.cases_of_left [DecidableEq K] {act : MapAct K V} {state : MapState K V}
    {gone : Entry K V} {departure : Departure} (h : .left gone departure ∈ act.events state) :
    (∃ entry now, act = .insert entry now ∧ entry.key = gone.key ∧ departure = .replaced) ∨
      (act = .remove gone.key ∧ departure = .removed) ∨
      (act = .removeIfSame gone.key gone.seq ∧ departure = .evicted) ∨
      (act = .clear ∧ departure = .cleared) := by
  -- from what the act tells one knows which act it was
  cases act with
  | insert entry now =>
      simp only [events] at h
      split at h
      · next old hlookup =>
        obtain ⟨rfl, rfl⟩ : gone = old ∧ departure = .replaced := by simpa using h
        exact .inl ⟨entry, now, rfl, (Store.key_of_lookup hlookup).symm, rfl⟩
      · simp at h
  | remove key =>
      simp only [events] at h
      split at h
      · next old hlookup =>
        obtain ⟨rfl, rfl⟩ : gone = old ∧ departure = .removed := by simpa using h
        exact .inr (.inl ⟨by rw [Store.key_of_lookup hlookup], rfl⟩)
      · cases h
  | removeIfSame key seq =>
      simp only [events] at h
      split at h
      · next old hlookup =>
        split at h
        · next hseq =>
          obtain ⟨rfl, rfl⟩ : gone = old ∧ departure = .evicted := by simpa using h
          exact .inr (.inr (.inl ⟨by rw [Store.key_of_lookup hlookup, hseq], rfl⟩))
        · cases h
      · cases h
  | clear =>
      obtain ⟨old, -, heq⟩ := List.mem_map.mp h
      exact .inr (.inr (.inr ⟨rfl, (MapEvent.left.inj heq).2.symm⟩))
  | read | insertIfAbsent | shift =>
      simp only [events] at h
      split at h <;> simp at h
  | lock | unlock | reserve | setPhase | keepJob => simp [events] at h
  | scan | size | readPhase | takeJob | borrow | hold | letGo | addHandle | takeHandle => cases h

/-! ## What leaves the maps aside -/

namespace Deployment

/-- Whether what happens from one deployment to the next is no matter of the maps. -/
structure Aside (earlier later : Deployment n S K V) : Prop where
  state : ∀ map, later.state map = earlier.state map
  journal : ∃ events, later.journal = events ++ earlier.journal ∧
    ∀ map event, Event.ofMap map event ∉ events

theorem Aside.refl (deployment : Deployment n S K V) : deployment.Aside deployment :=
  ⟨fun _ => rfl, [], rfl, by simp⟩

theorem Aside.of_note {earlier later : Deployment n S K V} {events : List (Event n K V)}
    (hstate : ∀ map, later.state map = earlier.state map)
    (hjournal : later.journal = events.reverse ++ earlier.journal)
    (hevents : ∀ map event, Event.ofMap map event ∉ events) : earlier.Aside later :=
  ⟨hstate, _, hjournal, by simpa using hevents⟩

theorem aside_onClock (deployment : Deployment n S K V) (act : ClockAct) :
    deployment.Aside (deployment.onClock act).2 := by
  refine .of_note (fun _ => rfl) rfl fun map event => ?_
  split <;> simp

theorem aside_onScheduler (deployment : Deployment n S K V) (act : SchedulerAct n) :
    deployment.Aside (deployment.onScheduler act).2 :=
  .of_note (fun _ => rfl) rfl (by simp)

theorem aside_elapse (deployment : Deployment n S K V) (ns : Nat) :
    deployment.Aside (deployment.elapse ns) := by
  refine .of_note (fun _ => rfl) rfl fun map event => ?_
  split <;> simp

theorem aside_enter (deployment : Deployment n S K V) (plan : Plan n S K V) (map : Fin n)
    (hook : Hook K V) : deployment.Aside (plan.enter deployment map hook).2 := by
  unfold Plan.enter
  split
  · exact .refl deployment
  · exact .of_note (fun _ => rfl) rfl (by simp)

theorem aside_resume (deployment : Deployment n S K V) (map : Fin n) (call : Call n K V)
    (outcome : Outcome (Answer V)) (remember : S → S) :
    deployment.Aside (deployment.resume map call outcome remember).2 := by
  refine .of_note (fun _ => rfl) rfl fun other event => ?_
  cases outcome <;> simp [Event.ofAction]

theorem aside_leave (deployment : Deployment n S K V) (map : Fin n) (hook : Hook K V)
    (verdict : Outcome Bool) : deployment.Aside (deployment.leave map hook verdict) :=
  .of_note (fun _ => rfl) rfl (by simp)

theorem aside_gather (deployment : Deployment n S K V) :
    deployment.Aside (deployment.note [.gathered]) :=
  .of_note (fun _ => rfl) rfl (by simp)

/-- An act leaves the maps aside, unless it is an act on one of them. -/
theorem aside_perform [DecidableEq K] (enumeration : Fin n → Enumeration K V)
    (deployment : Deployment n S K V) (act : Act n K V) :
    deployment.Aside (deployment.perform enumeration act).2 ∨
      ∃ map done, act = .map map done := by
  cases act with
  | map map done => exact .inr ⟨map, done, rfl⟩
  | clock act => exact .inl (aside_onClock deployment act)
  | scheduler act => exact .inl (aside_onScheduler deployment act)
  | log map record => exact .inl (.of_note (fun _ => rfl) rfl (by simp))
  | sleep ns => exact .inl (aside_elapse deployment ns)

/-! ## What comes before what -/

/-- Whether all that has happened by one deployment has happened by another one, too. -/
def Precedes (earlier later : Deployment n S K V) : Prop := earlier.journal <:+ later.journal

theorem Precedes.trans {first second third : Deployment n S K V} (h : first.Precedes second)
    (h' : second.Precedes third) : first.Precedes third :=
  List.IsSuffix.trans h h'

theorem Aside.precedes {earlier later : Deployment n S K V} (h : earlier.Aside later) :
    earlier.Precedes later := by
  obtain ⟨events, hjournal, -⟩ := h.journal
  exact ⟨events, hjournal.symm⟩

theorem precedes_onMap [DecidableEq K] (enumeration : Fin n → Enumeration K V)
    (deployment : Deployment n S K V) (map : Fin n) (act : MapAct K V) :
    deployment.Precedes (deployment.onMap enumeration map act).2 :=
  ⟨_, (deployment.journal_onMap enumeration map act).symm⟩

end Deployment

end ExpiringMap
