import ExpiringMap.Proofs.Lasting
import ExpiringMap.Proofs.Operation.Composition
import ExpiringMap.Proofs.Store.Removal
import Mathlib.Data.List.Nodup

/-!
# Sequence numbers

The journal tells which entries were placed in a store, and in which order.  A deployment is
`Numbered` if for each of its maps the numbers of these entries go up in that order and have all
been given out, and if every entry in the store is one of those that were placed, touched since at
most.  So numbers tell the entries of a store apart (`Numbered.eq_of_seq_eq`), of two of them the
smaller number is the one that was placed earlier, and a number stands for one entry however long
it is in the store (`Numbered.stems_of_seq_eq`).

What everything in a deployment maintains is that it `Proceeds`: numbered deployments stay
numbered, the journal and the next numbers only grow, and what is placed meanwhile has a number
that had not been given out before (`lasting_proceeds`).
-/

namespace ExpiringMap

variable {n : Nat} {S K V α : Type}

/-! ## Placed entries -/

def MapEvent.placed? : MapEvent K V → Option (Entry K V)
  | placed entry _ => some entry
  | _ => none

def Event.placed? (map : Fin n) : Event n K V → Option (Entry K V)
  | ofMap other event => if other = map then event.placed? else none
  | _ => none

/-- The entries that came into the store of a map, the last one first, among events of which
the last one comes first. -/
def placings (map : Fin n) (events : List (Event n K V)) : List (Entry K V) :=
  events.filterMap (Event.placed? map)

@[simp] theorem placings_append (map : Fin n) (later earlier : List (Event n K V)) :
    placings map (later ++ earlier) = placings map later ++ placings map earlier :=
  List.filterMap_append

/-- Whether an entry is the one that was placed as `placed`, touched since at most. -/
structure Entry.Stems (entry placed : Entry K V) : Prop where
  key : entry.key = placed.key
  value : entry.value = placed.value
  timeout : entry.timeout = placed.timeout
  seq : entry.seq = placed.seq

theorem Entry.Stems.refl (entry : Entry K V) : entry.Stems entry := ⟨rfl, rfl, rfl, rfl⟩

theorem Entry.Stems.trans {third second first : Entry K V} (h : third.Stems second)
    (h' : second.Stems first) : third.Stems first :=
  ⟨h.key.trans h'.key, h.value.trans h'.value, h.timeout.trans h'.timeout, h.seq.trans h'.seq⟩

namespace Store

/-- Whether a store has no entry that is not in another one already, and gives out no number
that the other one has given out. -/
structure AddsNothing (before after : Store K V) : Prop where
  stems : ∀ entry ∈ after.entries, ∃ old ∈ before.entries, entry.Stems old
  next : before.next ≤ after.next

theorem AddsNothing.refl (store : Store K V) : store.AddsNothing store :=
  ⟨fun entry hentry => ⟨entry, hentry, .refl entry⟩, Nat.le_refl _⟩

theorem addsNothing_restrict (store : Store K V) (keep : Entry K V → Bool) :
    store.AddsNothing (store.restrict keep) :=
  ⟨fun entry hentry => ⟨entry, (List.mem_filter.mp hentry).1, .refl entry⟩, Nat.le_refl _⟩

/-- Whether the numbers of a store go up with the entries that were placed, the last of which
comes first. -/
structure Numbered (store : Store K V) (placed : List (Entry K V)) : Prop where
  descending : placed.Pairwise fun later earlier => earlier.seq < later.seq
  below : ∀ entry ∈ placed, entry.seq < store.next
  stems : ∀ entry ∈ store.entries, ∃ first ∈ placed, entry.Stems first

namespace Numbered

variable {store : Store K V} {placed : List (Entry K V)}

theorem seq_lt_next (h : store.Numbered placed) {entry : Entry K V}
    (hentry : entry ∈ store.entries) : entry.seq < store.next := by
  obtain ⟨first, hfirst, hstems⟩ := h.stems entry hentry
  rw [hstems.seq]
  exact h.below first hfirst

theorem placed_eq_of_seq_eq (h : store.Numbered placed) {first second : Entry K V}
    (hfirst : first ∈ placed) (hsecond : second ∈ placed) (hseq : first.seq = second.seq) :
    first = second := by
  have hnodup : (placed.map Entry.seq).Nodup :=
    List.pairwise_map.mpr (h.descending.imp fun hlt => Nat.ne_of_gt hlt)
  exact List.inj_on_of_nodup_map hnodup hfirst hsecond hseq

/-- The numbers of a store tell its entries apart. -/
theorem eq_of_seq_eq [DecidableEq K] (h : store.Numbered placed) {first second : Entry K V}
    (hfirst : first ∈ store.entries) (hsecond : second ∈ store.entries)
    (hseq : first.seq = second.seq) : first = second := by
  -- both stem from the entry that was placed under their number, so they have one key
  obtain ⟨one, hone, hstems⟩ := h.stems first hfirst
  obtain ⟨other, hother, hstems'⟩ := h.stems second hsecond
  have hsame : one = other := h.placed_eq_of_seq_eq hone hother
    (hstems.seq.symm.trans (hseq.trans hstems'.seq))
  subst hsame
  exact eq_of_key_eq hfirst hsecond (hstems.key.trans hstems'.key.symm)

theorem of_addsNothing {after : Store K V} (h : store.Numbered placed)
    (hadds : store.AddsNothing after) : after.Numbered placed where
  descending := h.descending
  below entry hentry := Nat.lt_of_lt_of_le (h.below entry hentry) hadds.next
  stems entry hentry := by
    obtain ⟨old, hold, hstems⟩ := hadds.stems entry hentry
    obtain ⟨first, hfirst, hstems'⟩ := h.stems old hold
    exact ⟨first, hfirst, hstems.trans hstems'⟩

/-- An entry may be placed under a number that has been given out and that no entry has. -/
theorem place [DecidableEq K] (h : store.Numbered placed) {entry : Entry K V}
    (hnext : entry.seq < store.next) (hnew : ∀ earlier ∈ placed, earlier.seq < entry.seq) :
    (store.place entry).Numbered (entry :: placed) where
  descending := List.pairwise_cons.mpr ⟨hnew, h.descending⟩
  below := by
    rintro earlier hearlier
    rcases List.mem_cons.mp hearlier with rfl | hearlier
    · exact hnext
    · exact h.below earlier hearlier
  stems := by
    rintro kept hkept
    rcases List.mem_cons.mp hkept with rfl | hkept
    · exact ⟨kept, List.mem_cons_self .., .refl kept⟩
    · -- any other entry was there before, and stems from what it did
      obtain ⟨first, hfirst, hstems⟩ := h.stems kept (List.mem_filter.mp hkept |>.1)
      exact ⟨first, List.mem_cons_of_mem _ hfirst, hstems⟩

end Numbered

end Store

/-! ## Acts that place nothing -/

/-- Whether an act on a map leaves it to others to place entries. -/
def MapAct.PlacesNothing : MapAct K V → Prop
  | insert .. | insertIfAbsent .. => False
  | _ => True

theorem MapAct.IsPlain.placesNothing {act : MapAct K V} (h : act.IsPlain) : act.PlacesNothing := by
  cases act <;> first | exact h | exact h.elim

theorem Store.addsNothing_touch [DecidableEq K] (store : Store K V) (key : K) (now : Instant) :
    store.AddsNothing (store.touch key now) := by
  refine ⟨fun entry hentry => ?_, Nat.le_refl _⟩
  obtain ⟨old, hold, rfl⟩ := List.mem_map.mp hentry
  refine ⟨old, hold, ?_⟩
  split
  · exact ⟨rfl, rfl, rfl, rfl⟩
  · exact .refl old

theorem MapAct.addsNothing [DecidableEq K] {act : MapAct K V} (h : act.PlacesNothing)
    (state : MapState K V) : state.store.AddsNothing (act.apply state).store := by
  cases act with
  | insert entry now => exact h.elim
  | insertIfAbsent entry now => exact h.elim
  | reserve => exact ⟨fun entry hentry => ⟨entry, hentry, .refl entry⟩, Nat.le_succ _⟩
  | read key now => exact state.store.addsNothing_touch key now
  | remove key => exact state.store.addsNothing_restrict _
  -- what goes by its number goes from the store all the same
  | removeIfSame key seq =>
      have hremove := (state.store.removeIfSame_eq key seq).1
      simp only [apply, hremove]
      exact state.store.addsNothing_restrict _
  | clear => exact ⟨by simp [apply, Store.clear], Nat.le_refl _⟩
  | borrow | hold | takeHandle =>
      simp only [apply]
      split <;> exact .refl _
  | lock | unlock | scan | size | readPhase | setPhase | shift | keepJob | takeJob | letGo
  | addHandle => exact .refl _

theorem MapAct.placed?_events [DecidableEq K] {act : MapAct K V} (h : act.PlacesNothing)
    (state : MapState K V) : ∀ event ∈ act.events state, event.placed? = none := by
  intro event hevent
  -- what is left to happen is that entries are touched or leave, or is no matter of the store
  cases act with
  | insert entry now => exact h.elim
  | insertIfAbsent entry now => exact h.elim
  | clear =>
      obtain ⟨entry, -, rfl⟩ := List.mem_map.mp hevent
      rfl
  | read | remove | removeIfSame | shift =>
      simp only [events] at hevent
      grind [MapEvent.placed?]
  | lock | unlock | reserve | setPhase | keepJob =>
      rw [List.mem_singleton.mp hevent]
      rfl
  | scan | size | readPhase | takeJob | borrow | hold | letGo | addHandle | takeHandle =>
      simp [events] at hevent

/-! ## Growing -/

namespace Deployment

/-- Whether a deployment has come of another one in such a way that nothing in the journal is
lost, numbers only go up, and what has been placed meanwhile has new numbers. -/
structure Grows (earlier later : Deployment n S K V) : Prop where
  journal : ∃ events, later.journal = events ++ earlier.journal ∧
    ∀ map, ∀ placed ∈ placings map events, (earlier.state map).store.next ≤ placed.seq
  next : ∀ map, (earlier.state map).store.next ≤ (later.state map).store.next

/-- Whether the numbers of all stores go up with the entries that were placed. -/
def Numbered (deployment : Deployment n S K V) : Prop :=
  ∀ map, (deployment.state map).store.Numbered (placings map deployment.journal)

/-- An entry that is found under its number at two times is the same but for its deadline. -/
theorem Numbered.stems_of_seq_eq {earlier later : Deployment n S K V} (hearlier : earlier.Numbered)
    (hlater : later.Numbered) (hprecedes : earlier.Precedes later) {map : Fin n}
    {old entry : Entry K V} (hold : old ∈ (earlier.state map).store.entries)
    (hentry : entry ∈ (later.state map).store.entries) (hseq : entry.seq = old.seq) :
    entry.Stems old := by
  -- both stem from the entry that was placed under their number
  obtain ⟨first, hfirst, hfrom⟩ := (hearlier map).stems old hold
  obtain ⟨second, hsecond, hfrom'⟩ := (hlater map).stems entry hentry
  have hfirst' : first ∈ placings map later.journal := (hprecedes.filterMap _).subset hfirst
  have hsame : second = first := (hlater map).placed_eq_of_seq_eq hsecond hfirst'
    (hfrom'.seq.symm.trans (hseq.trans hfrom.seq))
  subst hsame
  exact ⟨hfrom'.key.trans hfrom.key.symm, hfrom'.value.trans hfrom.value.symm,
    hfrom'.timeout.trans hfrom.timeout.symm, hseq⟩

/-- What goes on in a deployment: it grows, and stays numbered. -/
structure Proceeds (earlier later : Deployment n S K V) : Prop where
  grows : earlier.Grows later
  numbered : earlier.Numbered → later.Numbered

theorem Proceeds.precedes {earlier later : Deployment n S K V} (h : earlier.Proceeds later) :
    earlier.Precedes later := by
  obtain ⟨events, hjournal, -⟩ := h.grows.journal
  exact ⟨events, hjournal.symm⟩

theorem Proceeds.refl (deployment : Deployment n S K V) : deployment.Proceeds deployment :=
  ⟨⟨⟨[], rfl, by simp [placings]⟩, fun _ => Nat.le_refl _⟩, id⟩

theorem Proceeds.trans {first second third : Deployment n S K V} (h : first.Proceeds second)
    (h' : second.Proceeds third) : first.Proceeds third := by
  obtain ⟨earlier, hearlier, hplaced⟩ := h.grows.journal
  obtain ⟨later, hlater, hplaced'⟩ := h'.grows.journal
  refine ⟨⟨⟨later ++ earlier, by rw [hlater, hearlier, List.append_assoc], ?_⟩, ?_⟩, ?_⟩
  · intro map placed hmem
    rw [placings_append] at hmem
    rcases List.mem_append.mp hmem with hmem | hmem
    · exact Nat.le_trans (h.grows.next map) (hplaced' map placed hmem)
    · exact hplaced map placed hmem
  · exact fun map => Nat.le_trans (h.grows.next map) (h'.grows.next map)
  · exact fun hnumbered => h'.numbered (h.numbered hnumbered)

/-- A deployment proceeds whenever nothing is placed. -/
theorem proceeds_of_addsNothing {earlier later : Deployment n S K V}
    {events : List (Event n K V)} (hjournal : later.journal = events ++ earlier.journal)
    (hevents : ∀ map, ∀ event ∈ events, event.placed? map = none)
    (hstores : ∀ map, (earlier.state map).store.AddsNothing (later.state map).store) :
    earlier.Proceeds later := by
  have hnone : ∀ map, placings map events = [] := fun map =>
    List.filterMap_eq_nil_iff.mpr (hevents map)
  refine ⟨⟨⟨events, hjournal, fun map => by simp [hnone map]⟩, fun map => (hstores map).next⟩, ?_⟩
  intro hnumbered map
  have hsame : placings map later.journal = placings map earlier.journal := by
    simp [hjournal, hnone map]
  rw [hsame]
  exact (hnumbered map).of_addsNothing (hstores map)

/-- A deployment proceeds when its maps are left aside. -/
theorem Aside.proceeds {earlier later : Deployment n S K V} (h : earlier.Aside later) :
    earlier.Proceeds later := by
  obtain ⟨events, hjournal, hnone⟩ := h.journal
  refine proceeds_of_addsNothing hjournal (fun map event hevent => ?_) fun map => ?_
  · cases event with
    | ofMap other event => exact absurd hevent (hnone other event)
    | _ => rfl
  · exact h.state map ▸ .refl _

end Deployment

/-! ## Everything in a deployment proceeds -/

section Proceeding

open Deployment Operation Program

variable [DecidableEq K] {plan : Plan n S K V} {consultation : Consultation n S K V}

theorem proceeds_onMap {act : MapAct K V} (h : act.PlacesNothing)
    (enumeration : Fin n → Enumeration K V) (deployment : Deployment n S K V) (map : Fin n) :
    deployment.Proceeds (deployment.onMap enumeration map act).2 := by
  refine proceeds_of_addsNothing (deployment.journal_onMap enumeration map act) ?_ ?_
  · intro other event hevent
    obtain ⟨happened, hmem, rfl⟩ := List.mem_map.mp (List.mem_reverse.mp hevent)
    simp [Event.placed?, act.placed?_events h _ happened hmem]
  · intro other
    rw [state_onMap]
    split
    · next heq => exact heq ▸ act.addsNothing h (deployment.state map)
    · exact .refl _

theorem proceeds_perform {act : Act n K V} (h : (Step.act act).IsPlain)
    (enumeration : Fin n → Enumeration K V) (deployment : Deployment n S K V) :
    deployment.Proceeds (deployment.perform enumeration act).2 := by
  rcases deployment.aside_perform enumeration act with haside | ⟨map, done, rfl⟩
  · exact haside.proceeds
  · exact proceeds_onMap (MapAct.IsPlain.placesNothing h) enumeration deployment map

theorem proceeds_respond {step : Step n K V} (h : step.IsPlain)
    (hconsult : ∀ map hook, Keeps Proceeds (plan.consult consultation map hook))
    (deployment : Deployment n S K V) :
    deployment.Proceeds (plan.respond consultation step deployment).2 := by
  cases step with
  | act act => exact proceeds_perform h plan.enumeration deployment
  | consult map hook => exact hconsult map hook deployment

/-! ### Placing under a new number -/

/-- Whether an act may place an entry, its countdown started at `now`. -/
def MapAct.Places (act : MapAct K V) (entry : Entry K V) (now : Instant) : Prop :=
  act = .insert entry now ∨ act = .insertIfAbsent entry now

/-- An act that may place an entry does it or changes nothing. -/
theorem MapAct.Places.cases {act : MapAct K V} {entry : Entry K V} {now : Instant}
    (h : act.Places entry now) (state : MapState K V) :
    (act.apply state).store = state.store.place (entry.touch now) ∧
        (act.events state).filterMap MapEvent.placed? = [entry.touch now] ∨
      (act.apply state).store = state.store ∧
        (act.events state).filterMap MapEvent.placed? = [] := by
  rcases h with rfl | rfl
  · refine .inl ⟨rfl, ?_⟩
    simp only [MapAct.events]
    split <;> rfl
  · simp only [MapAct.apply, MapAct.events, Store.insertIfAbsent, Entry.touch_key]
    cases state.store.lookup entry.key with
    | none => exact .inl ⟨rfl, rfl⟩
    | some present => exact .inr ⟨rfl, rfl⟩

omit [DecidableEq K] in
theorem placings_onMap (map other : Fin n) (events : List (MapEvent K V)) :
    placings other (events.map (Event.ofMap (n := n) map)).reverse =
      if map = other then (events.filterMap MapEvent.placed?).reverse else [] := by
  simp only [placings, List.filterMap_reverse, List.filterMap_map]
  split
  · next heq =>
    congr 2
    funext event
    simp [Event.placed?, heq]
  · next hne => simp [Event.placed?, hne, Function.comp_def]

section PlacingUnderNewNumber

variable (enumeration : Fin n → Enumeration K V) {earlier later : Deployment n S K V}
  {map : Fin n} {act : MapAct K V} {entry : Entry K V} {now : Instant}

theorem grows_placing (hact : act.Places entry now) (hgrows : earlier.Grows later)
    (hseq : entry.seq = (earlier.state map).store.next) :
    earlier.Grows (later.onMap enumeration map act).2 := by
  obtain ⟨events, hjournal, hplaced⟩ := hgrows.journal
  refine ⟨⟨((act.events (later.state map)).map (Event.ofMap map)).reverse ++ events, ?_, ?_⟩, ?_⟩
  · rw [journal_onMap, hjournal, List.append_assoc]
  · intro other placed hmem
    rw [placings_append, placings_onMap] at hmem
    rcases List.mem_append.mp hmem with hmem | hmem
    · split at hmem
      · next heq =>
        -- either the entry is placed now, under the number that was next before
        rcases hact.cases (later.state map) with ⟨-, hevents⟩ | ⟨-, hevents⟩
        · rw [hevents, List.reverse_singleton, List.mem_singleton] at hmem
          have hsame : placed.seq = (earlier.state other).store.next := by
            rw [hmem, Entry.touch_seq, hseq, heq]
          exact Nat.le_of_eq hsame.symm
        · -- or another entry is there, and nothing is placed
          simp [hevents] at hmem
      · simp at hmem
    · exact hplaced other placed hmem
  · intro other
    rw [state_onMap]
    split
    · next heq =>
      have hnext := hgrows.next map
      rcases hact.cases (later.state map) with ⟨hstore, -⟩ | ⟨hstore, -⟩ <;> rw [hstore, heq]
      · exact hnext
      · exact hnext
    · exact hgrows.next other

theorem numbered_placing (hact : act.Places entry now) (hnumbered : later.Numbered)
    (hnew : ∀ placed ∈ placings map later.journal, placed.seq < entry.seq)
    (hnext : entry.seq < (later.state map).store.next) :
    (later.onMap enumeration map act).2.Numbered := by
  intro other
  rw [state_onMap, journal_onMap, placings_append, placings_onMap]
  by_cases heq : other = map
  · -- the map itself, with the entry or without it
    subst heq
    rw [if_pos rfl, if_pos rfl]
    rcases hact.cases (later.state other) with ⟨hstore, hevents⟩ | ⟨hstore, hevents⟩
    · rw [hstore, hevents]
      exact (hnumbered other).place hnext hnew
    · rw [hstore, hevents]
      exact hnumbered other
  · have hne : ¬ map = other := fun h => heq h.symm
    rw [if_neg heq, if_neg hne]
    exact hnumbered other

/-- An entry may be placed under the number that was the next one a moment ago. -/
theorem proceeds_placing (hact : act.Places entry now) (hproceeds : earlier.Proceeds later)
    (hplacings : placings map later.journal = placings map earlier.journal)
    (hseq : entry.seq = (earlier.state map).store.next)
    (hnext : entry.seq < (later.state map).store.next) :
    earlier.Proceeds (later.onMap enumeration map act).2 where
  grows := grows_placing enumeration hact hproceeds.grows hseq
  numbered hnumbered := by
    refine numbered_placing enumeration hact (hproceeds.numbered hnumbered) ?_ hnext
    intro placed hplaced
    rw [hplacings] at hplaced
    exact hseq ▸ (hnumbered map).below placed hplaced

end PlacingUnderNewNumber

/-! ### Operations -/

theorem maintains_guarded {body : Operation n K V α} (map : Fin n)
    (h : body.Maintains plan consultation Proceeds) :
    (guarded map body).Maintains plan consultation Proceeds := by
  have hact : ∀ act : MapAct K V, act.PlacesNothing →
      (onMap (n := n) map act).Maintains plan consultation Proceeds := fun act hact =>
    maintains_act fun deployment => proceeds_onMap hact plan.enumeration deployment map
  refine maintains_bind .trans (hact .lock trivial) fun _ => ?_
  refine maintains_bind .trans h fun result => ?_
  exact maintains_bind .trans (hact .unlock trivial) fun _ => maintains_done .refl result

/-- What is done under the lock to place an entry: nothing comes between giving out its number
and placing it but a reading of the clock. -/
theorem maintains_reserve_read_place (map : Fin n) (place : Nat → Instant → MapAct K V)
    (hplaces : ∀ seq now, ∃ entry, entry.seq = seq ∧ (place seq now).Places entry now)
    (result : ∀ seq now, (place seq now).Answer → α) :
    Operation.Maintains plan consultation Proceeds
      (.act (.act (.map map .reserve)) fun seq =>
        .act (.act (.clock .read)) fun now =>
          .act (.act (.map map (place seq now))) fun answer => .done (result seq now answer)) := by
  intro deployment
  have hquiet : (MapAct.reserve : MapAct K V).PlacesNothing := trivial
  set reserved := (deployment.onMap plan.enumeration map .reserve).2 with hreserved
  set timed := (reserved.onClock .read).2 with htimed
  have hreserve : deployment.Proceeds reserved := proceeds_onMap hquiet _ deployment map
  have hread : deployment.Proceeds timed := hreserve.trans (reserved.aside_onClock .read).proceeds
  have hplace : deployment.Proceeds (timed.onMap plan.enumeration map
      (place (deployment.state map).store.next (reserved.onClock .read).1)).2 := by
    obtain ⟨entry, hseq, hact⟩ := hplaces (deployment.state map).store.next
      (reserved.onClock .read).1
    refine proceeds_placing _ hact hread ?_ hseq ?_
    · -- neither giving out a number nor reading the clock places anything
      have hclock : placings map timed.journal = placings map reserved.journal := by
        simp only [htimed, Deployment.onClock, journal_note, placings_append]
        split <;> rfl
      rw [hclock, hreserved, journal_onMap]
      simp [MapAct.events, placings, Event.placed?, MapEvent.placed?]
    · rw [htimed, hreserved, state_onClock, state_onMap, if_pos rfl, hseq]
      exact Nat.lt_succ_self _
  refine ⟨hplace, fun moment hmoment => ?_⟩
  rcases List.mem_cons.mp hmoment with rfl | hmoment
  · exact hreserve
  rcases List.mem_cons.mp hmoment with rfl | hmoment
  · exact hread
  · rw [List.mem_singleton.mp hmoment]
    exact hplace

theorem maintains_put (map : Fin n) (key : K) (value : V) (timeout : Duration) :
    (put map key value timeout).Maintains plan consultation Proceeds :=
  maintains_guarded map <|
    maintains_reserve_read_place map (fun seq now => .insert ⟨key, value, timeout, seq, none⟩ now)
      (fun _ _ => ⟨_, rfl, .inl rfl⟩) fun _ _ answer => answer

theorem maintains_putIfAbsent (map : Fin n) (key : K) (value : V) (timeout : Duration) :
    (putIfAbsent map key value timeout).Maintains plan consultation Proceeds :=
  maintains_guarded map <|
    maintains_reserve_read_place map
      (fun seq now => .insertIfAbsent ⟨key, value, timeout, seq, none⟩ now)
      (fun _ _ => ⟨_, rfl, .inr rfl⟩) fun _ _ answer => answer

theorem composes_proceeds
    (hconsult : ∀ map hook, Keeps Proceeds (plan.consult consultation map hook)) :
    Composes fun _ operation => operation.Maintains plan consultation Proceeds where
  done := maintains_done .refl
  step _ hstep := maintains_act fun deployment => proceeds_respond hstep hconsult deployment
  bind := maintains_bind .trans
  guarded map _ := maintains_guarded map

theorem places_proceeds :
    Composes.Places fun _ operation =>
      Operation.Maintains plan consultation Proceeds operation :=
  ⟨maintains_put, maintains_putIfAbsent⟩

/-- Everything in a deployment proceeds, whatever the hooks do. -/
theorem lasting_proceeds (plan : Plan n S K V) : Lasting plan Proceeds where
  refl := .refl
  trans := .trans
  enter deployment map hook := (deployment.aside_enter plan map hook).proceeds
  resume deployment map call outcome remember :=
    (deployment.aside_resume map call outcome remember).proceeds
  leave deployment map hook verdict := (deployment.aside_leave map hook verdict).proceeds
  gather deployment := deployment.aside_gather.proceeds
  operation _ hconsult map request :=
    (composes_proceeds hconsult).serve places_proceeds (plan.settings map) map request

end Proceeding

end ExpiringMap
