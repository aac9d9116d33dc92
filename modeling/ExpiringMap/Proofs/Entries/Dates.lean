import ExpiringMap.Proofs.Countdown

/-!
# The deadlines that the journal tells

The journal tells when the countdown of an entry was last started: at its latest reading, or when it
was placed if it has not been read.  An entry in a store has the deadline that this gives
(`Deployment.Dated`), since no act moves a deadline without telling, and since numbers tell entries
apart.  The instants that the journal tells are what the clock has shown: operations start
countdowns, and scan for what has expired, at the instant at which the clock stands
(`goesByClock`).
-/

namespace ExpiringMap

variable {n : Nat} {S K V α : Type}

/-! ## Starts -/

/-- The instant at which the countdown of the entry of that number was started in an event. -/
def MapEvent.startOf? (seq : Nat) : MapEvent K V → Option Instant
  | placed entry now | touched entry now => if entry.seq = seq then some now else none
  | _ => none

def Event.startOf? (map : Fin n) (seq : Nat) : Event n K V → Option Instant
  | ofMap other event => if other = map then event.startOf? seq else none
  | _ => none

/-- The instant at which the countdown of the entry of that number was last started, among events of
which the last one comes first. -/
def lastStart? (map : Fin n) (seq : Nat) (events : List (Event n K V)) : Option Instant :=
  events.findSome? (Event.startOf? map seq)

theorem lastStart?_append (map : Fin n) (seq : Nat) (later earlier : List (Event n K V)) :
    lastStart? map seq (later ++ earlier) =
      (lastStart? map seq later).or (lastStart? map seq earlier) := by
  simp [lastStart?, List.findSome?_append]

theorem MapEvent.startOf?_eq_some_iff {seq : Nat} {event : MapEvent K V} {now : Instant} :
    event.startOf? seq = some now ↔ ∃ entry : Entry K V, entry.seq = seq ∧
      (event = .placed entry now ∨ event = .touched entry now) := by
  cases event with
  | placed entry other =>
      simp only [startOf?]
      grind
  | touched entry other =>
      simp only [startOf?]
      grind
  | locked | unlocked | left | numbered | entered | keptJob => simp [startOf?]

/-- An act that starts a countdown leaves the entry with the deadline that this gives. -/
theorem MapAct.mem_of_start [DecidableEq K] {act : MapAct K V} {state : MapState K V}
    {entry : Entry K V} {now : Instant}
    (h : .placed entry now ∈ act.events state ∨ .touched entry now ∈ act.events state) :
    entry ∈ (act.apply state).store.entries ∧ entry.deadline = now.after? entry.timeout := by
  cases act with
  | read key instant =>
      simp only [events] at h
      cases hlookup : state.store.lookup key with
      | none => simp [hlookup] at h
      | some old =>
          obtain ⟨rfl, rfl⟩ : entry = old.touch instant ∧ now = instant := by
            simpa [hlookup] using h
          obtain ⟨hold, hkey⟩ := Store.lookup_eq_some_iff.mp hlookup
          exact ⟨List.mem_map.mpr ⟨old, hold, if_pos hkey⟩, rfl⟩
  | insert placed instant =>
      obtain ⟨rfl, rfl⟩ : entry = placed.touch instant ∧ now = instant := by
        simp only [events] at h
        split at h <;> simpa using h
      exact ⟨List.mem_cons_self .., rfl⟩
  | insertIfAbsent placed instant =>
      simp only [events] at h
      cases hlookup : state.store.lookup placed.key with
      | some present => simp [hlookup] at h
      | none =>
          obtain ⟨rfl, rfl⟩ : entry = placed.touch instant ∧ now = instant := by
            simpa [hlookup] using h
          refine ⟨?_, rfl⟩
          simp [apply, Store.insertIfAbsent, hlookup, Store.place]
  | remove key | removeIfSame key seq =>
      simp only [events] at h
      grind
  | shift =>
      simp only [events] at h
      grind
  | clear => simp [events] at h
  | lock | unlock | reserve | scan | size | readPhase | setPhase | keepJob | takeJob | borrow | hold
  | letGo | addHandle | takeHandle => simp [events] at h

/-! ## Deadlines -/

namespace Deployment

/-- Whether every entry in a store has the deadline that its last start gives it. -/
def Dated (deployment : Deployment n S K V) : Prop :=
  ∀ map, ∀ entry ∈ (deployment.state map).store.entries,
    ∃ now, lastStart? map entry.seq deployment.journal = some now ∧
      entry.deadline = now.after? entry.timeout

theorem dated_fresh (drive : Drive) (clockRuns : Bool) (memory : S) :
    (fresh drive clockRuns memory : Deployment n S K V).Dated := by
  intro map entry hentry
  rw [Plan.Reachable.state_fresh] at hentry
  simp [Store.empty] at hentry

theorem Aside.dated {earlier later : Deployment n S K V} (h : earlier.Aside later)
    (hdated : earlier.Dated) : later.Dated := by
  obtain ⟨events, hjournal, hnone⟩ := h.journal
  intro map entry hentry
  have hquiet : lastStart? map entry.seq events = none := by
    refine List.findSome?_eq_none_iff.mpr fun event hevent => ?_
    cases event with
    | ofMap other event => exact absurd hevent (hnone other event)
    | ofScheduler | clockMoved | logged | called | answered | acted | gathered => rfl
  rw [h.state] at hentry
  rw [hjournal, lastStart?_append, hquiet, Option.none_or]
  exact hdated map entry hentry

/-- What was started last in an act on a map is found among the events of the act. -/
theorem lastStart?_onMap {map other : Fin n} {seq : Nat} {events : List (MapEvent K V)}
    {now : Instant}
    (h : lastStart? other seq (events.map (Event.ofMap (n := n) map)).reverse = some now) :
    other = map ∧ ∃ entry : Entry K V, entry.seq = seq ∧
      (.placed entry now ∈ events ∨ .touched entry now ∈ events) := by
  obtain ⟨event, hevent, hstart⟩ := List.exists_of_findSome?_eq_some h
  obtain ⟨happened, hmem, rfl⟩ := List.mem_map.mp (List.mem_reverse.mp hevent)
  simp only [Event.startOf?] at hstart
  split at hstart
  · next heq =>
    obtain ⟨entry, hseq, rfl | rfl⟩ := MapEvent.startOf?_eq_some_iff.mp hstart
    · exact ⟨heq.symm, entry, hseq, .inl hmem⟩
    · exact ⟨heq.symm, entry, hseq, .inr hmem⟩
  · cases hstart

/-- An act on a map keeps deadlines and journal in step, if numbers tell the entries apart that it
leaves. -/
theorem Dated.onMap [DecidableEq K] {deployment : Deployment n S K V} (h : deployment.Dated)
    {enumeration : Fin n → Enumeration K V} {map : Fin n} {act : MapAct K V}
    (hnumbered : (deployment.onMap enumeration map act).2.Numbered) :
    (deployment.onMap enumeration map act).2.Dated := by
  intro other entry hentry
  rw [journal_onMap, lastStart?_append]
  cases hstart : lastStart? other entry.seq
      ((act.events (deployment.state map)).map (Event.ofMap map)).reverse with
  | some now =>
      -- the act has started the countdown of an entry of that number, which is this one
      obtain ⟨rfl, started, hseq, hevent⟩ := lastStart?_onMap hstart
      have hstored := MapAct.mem_of_start hevent
      have hsame : started = entry := by
        refine (hnumbered other).eq_of_seq_eq ?_ hentry hseq
        rw [state_onMap, if_pos rfl]
        exact hstored.1
      exact ⟨now, rfl, hsame ▸ hstored.2⟩
  | none =>
      rw [Option.none_or]
      refine h other entry ?_
      rw [state_onMap] at hentry
      split at hentry
      · next heq =>
        subst heq
        refine (act.mem_or_start _ hentry).resolve_right ?_
        rintro ⟨now, -, hevent⟩
        have hnone := List.findSome?_eq_none_iff.mp hstart
        rcases hevent with hevent | hevent
        · have hplaced := hnone (.ofMap other (.placed entry now)) (by simpa using hevent)
          simp [Event.startOf?, MapEvent.startOf?] at hplaced
        · have htouched := hnone (.ofMap other (.touched entry now)) (by simpa using hevent)
          simp [Event.startOf?, MapEvent.startOf?] at htouched
      · exact hentry

end Deployment

/-- Deadlines and journal stay in step as long as numbers tell entries apart. -/
theorem lasting_dated [DecidableEq K] (plan : Plan n S K V) :
    Lasting plan fun earlier later => earlier.Proceeds later ∧
      (earlier.Numbered → earlier.Dated → later.Dated) :=
  (lasting_proceeds plan).keeping_onMap (fun hproceeds => hproceeds.numbered)
    (fun haside => haside.dated) fun _ _ _ _ hnumbered hdated => hdated.onMap hnumbered

theorem Plan.Reachable.dated [DecidableEq K] {plan : Plan n S K V}
    {deployment : Deployment n S K V} (h : plan.Reachable deployment) : deployment.Dated := by
  refine (h.holds (fun deployment => deployment.Numbered ∧ deployment.Dated)
    (lasting_dated plan) (fun drive clockRuns memory => ?_) (fun _ _ hboth => hboth)
    fun hlasts hboth => ⟨hlasts.1.numbered hboth.1, hlasts.2 hboth.1 hboth.2⟩).2
  exact ⟨(Reachable.fresh drive clockRuns memory : plan.Reachable _).numbered,
    Deployment.dated_fresh drive clockRuns memory⟩

end ExpiringMap
