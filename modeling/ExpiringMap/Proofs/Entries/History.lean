import ExpiringMap.Proofs.Entries.Dates
import ExpiringMap.Proofs.Operation.Instants
import ExpiringMap.Proofs.Pass.Notification

/-!
# The history of the entries in a store

Whatever has gone on in a deployment, the entries that a store has now can be traced back in the
journal (`reachable_keepsHistory`).

* Numbers are given out one by one, so how many there have been is the next number
  (`stepwise_counted`); it never goes back.
* An entry stems from the one that was placed under its number, and numbers go up in the order of
  the placings (`Plan.Reachable.numbered`).
* An entry has the deadline that its last start gives it (`Plan.Reachable.dated`), and it was
  started at an instant that the clock has shown (`goesByClock_serve`).
-/

namespace ExpiringMap

variable {n : Nat} {S K V : Type}

/-! ## How many numbers have been given out -/

def MapEvent.number? : MapEvent K V → Option Nat
  | numbered seq => some seq
  | _ => none

def Event.number? (map : Fin n) : Event n K V → Option Nat
  | ofMap other event => if other = map then event.number? else none
  | _ => none

/-- The numbers that a map has given out to entries, also to those that did not come into the store
in the end. -/
def numbersOf (map : Fin n) (events : List (Event n K V)) : List Nat :=
  events.filterMap (Event.number? map)

theorem numbersOf_append (map : Fin n) (later earlier : List (Event n K V)) :
    numbersOf map (later ++ earlier) = numbersOf map later ++ numbersOf map earlier :=
  List.filterMap_append

/-- The next number goes up with every number that is given out, and stays otherwise. -/
theorem MapAct.next_apply [DecidableEq K] (act : MapAct K V) (state : MapState K V) :
    (act.apply state).store.next =
      state.store.next + ((act.events state).filterMap MapEvent.number?).length := by
  cases act with
  | reserve => rfl
  | read key now =>
      simp only [events]
      cases state.store.lookup key <;> rfl
  | insert entry now =>
      simp only [events]
      cases state.store.lookup entry.key <;> rfl
  | insertIfAbsent entry now =>
      simp only [events, apply, Store.insertIfAbsent, Entry.touch_key]
      cases state.store.lookup entry.key <;> rfl
  | remove key =>
      simp only [events]
      cases state.store.lookup key <;> rfl
  | removeIfSame key seq =>
      simp only [events, apply, Store.removeIfSame]
      cases state.store.lookup key with
      | none => rfl
      | some entry =>
          -- the entry goes, or another one is there; neither gives out a number
          by_cases hseq : entry.seq = seq
          · simp only [if_pos hseq]
            rfl
          · simp only [if_neg hseq]
            rfl
  | clear => simp [events, apply, Store.clear, MapEvent.number?, Function.comp_def]
  | shift call source target =>
      simp only [events]
      split <;> rfl
  | borrow | hold | takeHandle =>
      simp only [apply]
      split <;> rfl
  | lock | unlock | scan | size | readPhase | setPhase | keepJob | takeJob | letGo
  | addHandle => rfl

namespace Deployment

/-- Whether the next number of each map is how many it has given out. -/
def Counted (deployment : Deployment n S K V) : Prop :=
  ∀ map, (deployment.state map).store.next = (numbersOf map deployment.journal).length

theorem Aside.counted {earlier later : Deployment n S K V} (h : earlier.Aside later)
    (hcounted : earlier.Counted) : later.Counted := by
  obtain ⟨events, hjournal, hnone⟩ := h.journal
  intro map
  have hquiet : numbersOf map events = [] := by
    refine List.filterMap_eq_nil_iff.mpr fun event hevent => ?_
    cases event with
    | ofMap other event => exact absurd hevent (hnone other event)
    | ofScheduler | clockMoved | logged | called | answered | acted | gathered => rfl
  rw [h.state, hjournal, numbersOf_append, hquiet, List.nil_append]
  exact hcounted map

theorem Counted.onMap [DecidableEq K] {deployment : Deployment n S K V} (h : deployment.Counted)
    (enumeration : Fin n → Enumeration K V) (map : Fin n) (act : MapAct K V) :
    (deployment.onMap enumeration map act).2.Counted := by
  intro other
  have hevents : numbersOf other
      ((act.events (deployment.state map)).map (Event.ofMap (n := n) map)).reverse =
        if map = other then
          ((act.events (deployment.state map)).filterMap MapEvent.number?).reverse
        else [] := by
    simp only [numbersOf, List.filterMap_reverse, List.filterMap_map]
    split
    · next heq => simp [Event.number?, heq]
    · -- another map gives out numbers of its own
      next hne => simp [Event.number?, hne, Function.comp_def]
  rw [state_onMap, journal_onMap, numbersOf_append, hevents, List.length_append]
  by_cases heq : other = map
  · subst heq
    rw [if_pos rfl, if_pos rfl, act.next_apply, h other, List.length_reverse, Nat.add_comm]
  · have hne : ¬ map = other := fun h => heq h.symm
    rw [if_neg heq, if_neg hne, h other, List.length_nil, Nat.zero_add]

end Deployment

variable [DecidableEq K]

theorem stepwise_counted (plan : Plan n S K V) :
    Stepwise plan fun earlier later => earlier.Counted → later.Counted :=
  ⟨fun first second hcounted => second (first hcounted), Deployment.Aside.counted,
    fun _ map act hcounted => hcounted.onMap plan.enumeration map act⟩

/-! ## What the journal of a reachable deployment tells -/

namespace Plan.Reachable

variable {plan : Plan n S K V} {earlier deployment : Deployment n S K V}

theorem counted (h : plan.Reachable deployment) : deployment.Counted := by
  refine h.holds Deployment.Counted (stepwise_counted plan).lasting
    (fun drive clockRuns memory map => ?_) (fun _ _ hcounted => hcounted)
    fun hlasts hcounted => hlasts hcounted
  rw [state_fresh]
  rfl

/-- The next number never goes back. -/
theorem next_le (hearlier : plan.Reachable earlier) (h : plan.Reachable deployment)
    (hprecedes : earlier.Precedes deployment) (map : Fin n) :
    (earlier.state map).store.next ≤ (deployment.state map).store.next := by
  obtain ⟨events, hjournal⟩ := hprecedes
  rw [hearlier.counted map, h.counted map, ← hjournal, numbersOf_append, List.length_append]
  exact Nat.le_add_left _ _

theorem stems_of_seq_eq (hearlier : plan.Reachable earlier) (h : plan.Reachable deployment)
    (hprecedes : earlier.Precedes deployment) {map : Fin n} {old entry : Entry K V}
    (hold : old ∈ (earlier.state map).store.entries)
    (hentry : entry ∈ (deployment.state map).store.entries) (hseq : entry.seq = old.seq) :
    entry.Stems old :=
  hearlier.numbered.stems_of_seq_eq h.numbered hprecedes hold hentry hseq

end Plan.Reachable

/-- What is certain of the entries of a map in a deployment. -/
structure Plan.KeepsHistory (plan : Plan n S K V) (map : Fin n) (deployment : Deployment n S K V) :
    Prop where
  /-- A key has the entry that carries it. -/
  keyed : ∀ key entry, (deployment.state map).store.lookup key = some entry ↔
    entry ∈ (deployment.state map).store.entries ∧ entry.key = key
  distinct : ((deployment.state map).store.entries.map Entry.seq).Nodup
  below : ∀ entry ∈ (deployment.state map).store.entries,
    entry.seq < (deployment.state map).store.next
  /-- The next number is how many entries have been created, so numbers have 64 bits as long as
  there are fewer of them. -/
  counted : (deployment.state map).store.next = (numbersOf map deployment.journal).length
  /-- The next number never goes back. -/
  ascending : ∀ earlier, plan.Reachable earlier → earlier.Precedes deployment →
    (earlier.state map).store.next ≤ (deployment.state map).store.next
  /-- What a pass has listed, at whatever time, has numbers that had been given out. -/
  listed : ∀ earlier depth standing request now found before after, plan.Reachable earlier →
    (⟨.act (.map map (.scan now)), found, before, after⟩ : Moment n S K V) ∈
      (plan.operation standing request).trace (plan.respond (plan.consultation depth)) earlier →
    after.Precedes deployment →
      ∀ candidate ∈ found, candidate.seq < (deployment.state map).store.next
  /-- Of two entries the one with the smaller number was placed earlier. -/
  ordered : ∀ first ∈ (deployment.state map).store.entries,
    ∀ second ∈ (deployment.state map).store.entries, first.seq < second.seq →
      PlacedBefore map deployment.journal first second
  /-- An entry is as it was placed, but for its deadline. -/
  created : ∀ entry ∈ (deployment.state map).store.entries,
    ∃ placed ∈ placings map deployment.journal, entry.Stems placed
  /-- As long as an entry is there, nothing but its deadline changes. -/
  unchanged : ∀ earlier, plan.Reachable earlier → earlier.Precedes deployment →
    ∀ old ∈ (earlier.state map).store.entries,
      ∀ entry ∈ (deployment.state map).store.entries, entry.seq = old.seq → entry.Stems old
  /-- An entry expires its timeout after it was last read, or placed if it has not been read, and
  not at all if the clock ends before. -/
  dated : ∀ entry ∈ (deployment.state map).store.entries,
    ∃ now, lastStart? map entry.seq deployment.journal = some now ∧
      entry.deadline = now.after? entry.timeout
  /-- Whatever is read or placed, at whatever time, is so at the instant at which the clock
  stands. -/
  shown : ∀ depth standing request, (plan.operation standing request).GoesByClock plan
    (plan.consultation depth)

section

variable {plan : Plan n S K V} {deployment : Deployment n S K V}

/-- In every deployment that is reached, whatever hooks do and however deep their calls are nested,
the entries of a map can be traced back. -/
theorem reachable_keepsHistory (hreachable : plan.Reachable deployment) (map : Fin n) :
    plan.KeepsHistory map deployment := by
  have hnumbered := hreachable.numbered map
  constructor
  case keyed => exact fun key entry => Store.lookup_eq_some_iff
  case distinct =>
    refine List.Nodup.map_on (fun first hfirst second hsecond hseq => ?_)
      (Store.nodup_entries _)
    exact hnumbered.eq_of_seq_eq hfirst hsecond hseq
  case below => exact fun entry hentry => hnumbered.seq_lt_next hentry
  case counted => exact hreachable.counted map
  case ascending =>
    exact fun earlier hearlier hprecedes => hearlier.next_le hreachable hprecedes map
  case listed =>
    intro earlier depth standing request now found before after hearlier hmoment hprecedes
      candidate hcandidate
    -- the scan has left the store as it found it, and listed entries of it
    have hrespond : before.onMap plan.enumeration map (.scan now) = (found, after) :=
      Program.respond_of_mem_trace _ hmoment
    obtain ⟨rfl, rfl⟩ := Prod.mk.inj hrespond
    have hlisted : candidate ∈ (before.state map).store.expired now :=
      ((plan.enumeration map).perm _ _).mem_iff.mp hcandidate
    have hbefore : plan.Reachable before := hearlier.before hmoment
    have hgiven := (hbefore.numbered map).seq_lt_next (List.mem_filter.mp hlisted).1
    have hlater := hbefore.next_le hreachable
      ((Deployment.precedes_onMap plan.enumeration before map (.scan now)).trans hprecedes) map
    exact Nat.lt_of_lt_of_le hgiven hlater
  case ordered =>
    exact fun first hfirst second hsecond hless => hnumbered.placedBefore hfirst hsecond hless
  case created => exact hnumbered.stems
  case unchanged =>
    exact fun earlier hearlier hprecedes old hold entry hentry hseq =>
      hearlier.stems_of_seq_eq hreachable hprecedes hold hentry hseq
  case dated => exact hreachable.dated map
  case shown => exact fun depth standing request => goesByClock_serve plan _ standing request

end

/-- The deployment of `renewing` after two entries have been put in, the first of which has been
read since. -/
def readOnce : Deployment 1 Unit Nat Nat :=
  let only : Fin 1 := ⟨0, Nat.zero_lt_one⟩
  let serve (request : Request Nat Nat) (deployment : Deployment 1 Unit Nat Nat) :=
    (renewing.run 0 (renewing.operation only request) deployment).2
  serve (.map (.get 7)) (serve (.advance 5) (serve (.map (.put 8 80 .second))
    (serve (.map (.put 7 70 .second)) (.fresh (.byHand false false) false ()))))

/-- The entry that has been read expires a second after that, and the other one a second after it
was put in. -/
theorem reachable_keepsHistory_readOnce :
    renewing.KeepsHistory 0 readOnce ∧
      (readOnce.state 0).store.entries.map (fun entry => (entry.key, entry.seq, entry.deadline)) =
        [(8, 1, some ⟨1000000000, by decide⟩), (7, 0, some ⟨1000000005, by decide⟩)] := by
  refine ⟨reachable_keepsHistory ?_ 0, by rfl⟩
  exact ((((Plan.Reachable.fresh _ _ _).run 0 0 _).run 0 0 _).run 0 0 _).run 0 0 _

end ExpiringMap
