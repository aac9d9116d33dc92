import ExpiringMap.Proofs.Entries.Dates
import ExpiringMap.Proofs.Entries.Expiry
import ExpiringMap.Proofs.Ledger.Balance
import ExpiringMap.Proofs.Operation.Instants
import ExpiringMap.Proofs.Pass.Listings
import Mathlib.Data.List.Infix

/-!
# Entries that are tended

An entry is tended if since it was placed nobody has put, removed or cleared its key, and the clock
has never shown more than its timeout after it was last placed or read (`Deployment.Tends`); if the
clock does not go back, this needs to be so only whenever it is read, and now
(`Entry.inTime_of_accesses`).  Then it is still in its store (`lasting_cares`), since nothing takes
it out:

* an act that takes it out tells so in the journal (`MapAct.stays_or_leaves`), and if it is not the
  eviction by a pass, the entry has not been tended;
* a pass evicts what its scan has listed, and a scan does not list the entry: either it was made
  before the entry was placed, when the number of the entry had not been given out yet, or it found
  the deadline that the last access gives, which the clock had not passed
  (`Deployment.seq_ne_of_tends`).

The clock is the one that the journal tells (`Deployment.TellsClock`).
-/

namespace ExpiringMap

variable {n : Nat} {S K V α : Type}

/-! ## The clock that the journal tells -/

def Event.clock? : Event n K V → Option Instant
  | clockMoved now => some now
  | _ => none

/-- What the clock shows, as far as is told by events of which the last one comes first. -/
def clockTold (events : List (Event n K V)) : Instant :=
  (events.findSome? Event.clock?).getD .origin

namespace Deployment

/-- Whether the clock shows what the journal tells, and nobody else has a hand in it. -/
structure TellsClock (deployment : Deployment n S K V) : Prop where
  alone : deployment.clock.foreseen = []
  now : deployment.clock.now = clockTold deployment.journal

theorem tellsClock_fresh (drive : Drive) (clockRuns : Bool) (memory : S) :
    (fresh drive clockRuns memory : Deployment n S K V).TellsClock :=
  ⟨rfl, rfl⟩

variable {earlier later : Deployment n S K V} {events : List (Event n K V)}

theorem TellsClock.of_quiet (h : earlier.TellsClock) (hclock : later.clock = earlier.clock)
    (hjournal : later.journal = events.reverse ++ earlier.journal)
    (hevents : ∀ event ∈ events, event.clock? = none) : later.TellsClock := by
  have hnone : events.reverse.findSome? Event.clock? = none :=
    List.findSome?_eq_none_iff.mpr fun event hevent => hevents event (List.mem_reverse.mp hevent)
  refine ⟨hclock ▸ h.alone, ?_⟩
  rw [hclock, h.now, clockTold, clockTold, hjournal, List.findSome?_append, hnone, Option.none_or]

theorem TellsClock.of_still (h : earlier.TellsClock) (hclock : later.clock = earlier.clock)
    (hjournal : later.journal = earlier.journal) : later.TellsClock :=
  ⟨hclock ▸ h.alone, by rw [hclock, hjournal, h.now]⟩

theorem TellsClock.of_moved (former : List (Event n K V)) (hforeseen : later.clock.foreseen = [])
    (hjournal : later.journal = .clockMoved later.clock.now :: former) : later.TellsClock :=
  ⟨hforeseen, by rw [hjournal]; rfl⟩

theorem TellsClock.onClock (h : earlier.TellsClock) (act : ClockAct) :
    (earlier.onClock act).2.TellsClock := by
  have halone : act.apply earlier.clock = act.applyAlone earlier.clock := by
    unfold ClockAct.apply
    rw [h.alone]
  have hforeseen : (act.apply earlier.clock).foreseen = [] := by
    rw [halone]
    cases act with
    | read =>
        simp only [ClockAct.applyAlone, Clock.elapse]
        split <;> exact h.alone
    | advance ns => exact h.alone
    | rewind ns => exact h.alone
  cases hmoves : act.moves earlier.clock with
  | true =>
      refine .of_moved earlier.journal hforeseen ?_
      simp [Deployment.onClock, note, hmoves]
  | false =>
      -- a clock that stands still is only read
      refine h.of_still ?_ ?_
      · show act.apply earlier.clock = earlier.clock
        rw [halone]
        cases act with
        | read =>
            have hstands : earlier.clock.runs = false := hmoves
            simp [ClockAct.applyAlone, Clock.elapse, hstands]
        | advance ns => simp [ClockAct.moves] at hmoves
        | rewind ns => simp [ClockAct.moves] at hmoves
      · simp [Deployment.onClock, note, hmoves]

theorem TellsClock.elapse (h : earlier.TellsClock) (ns : Nat) :
    (earlier.elapse ns).TellsClock := by
  cases hruns : earlier.clock.runs with
  | true =>
      refine .of_moved earlier.journal ?_ ?_
      · simp [Deployment.elapse, Clock.elapse, note, hruns, h.alone]
      · simp [Deployment.elapse, note, hruns]
  | false =>
      refine h.of_still ?_ ?_
      · simp [Deployment.elapse, Clock.elapse, note, hruns]
      · simp [Deployment.elapse, note, hruns]

theorem TellsClock.perform [DecidableEq K] (h : earlier.TellsClock)
    (enumeration : Fin n → Enumeration K V) (act : Act n K V) :
    (earlier.perform enumeration act).2.TellsClock := by
  cases act with
  | map map act =>
      exact h.of_quiet rfl (earlier.journal_onMap enumeration map act) (by simp [Event.clock?])
  | clock act => exact h.onClock act
  | scheduler act => exact h.of_quiet rfl rfl (by simp [Event.clock?])
  | log map record => exact h.of_quiet rfl rfl (by simp [Event.clock?])
  | sleep ns => exact h.elapse ns

end Deployment

theorem lasting_tellsClock [DecidableEq K] (plan : Plan n S K V) :
    Lasting plan fun earlier later => earlier.TellsClock → later.TellsClock where
  refl _ := id
  trans first second h := second (first h)
  enter deployment map hook h := by
    unfold Plan.enter
    split
    · exact h
    · exact h.of_quiet rfl rfl (by simp [Event.clock?])
  resume deployment map call outcome remember h := by
    refine h.of_quiet rfl rfl ?_
    cases outcome <;> simp [Event.ofAction, Event.clock?]
  leave deployment map hook verdict h := h.of_quiet rfl rfl (by simp [Event.clock?])
  gather deployment h := h.of_quiet rfl rfl (by simp [Event.clock?])
  operation consultation hconsult map request := by
    refine Program.maintains_of_respond (fun _ => id) (fun first second h => second (first h))
      (fun step deployment => ?_) _
    -- a step of the operation tells the clock itself, and of a hook it is known that it does
    cases step with
    | act act => exact fun h => h.perform plan.enumeration act
    | consult map hook => exact hconsult map hook deployment

/-! ## Tended entries -/

/-- Whether the clock shows no more than the timeout after an entry was last read, or placed if it
has not been read. -/
def Entry.IsInTime (entry : Entry K V) (map : Fin n) (events : List (Event n K V)) : Prop :=
  ∃ access ∈ lastStart? map entry.seq events,
    (clockTold events).ns ≤ access.ns + entry.timeout.ns

/-- Whether an entry that was placed at `now` has been tended in what has happened `since`. -/
structure Entry.IsTended (entry : Entry K V) (map : Fin n) (now : Instant)
    (since earlier : List (Event n K V)) : Prop where
  /-- No put, no remove and no stop has taken what its key had. -/
  undisturbed : ∀ gone departure, .ofMap map (.left gone departure) ∈ since →
    gone.key = entry.key → departure = .evicted
  inTime : ∀ rest, rest <:+ since →
    entry.IsInTime map (rest ++ .ofMap map (.placed entry now) :: earlier)

/-- Where the clock never goes back, an entry has been in time all along if it was so whenever it
was read and is so now. -/
theorem Entry.inTime_of_accesses {entry : Entry K V} {map : Fin n}
    {since former : List (Event n K V)}
    (hforwards : ∀ event rest, event :: rest <:+ since →
      (clockTold (rest ++ former)).ns ≤ (clockTold (event :: rest ++ former)).ns)
    (haccesses : ∀ event rest, event :: rest <:+ since →
      (event.startOf? map entry.seq).isSome → entry.IsInTime map (rest ++ former))
    (hnow : entry.IsInTime map (since ++ former)) :
    ∀ rest, rest <:+ since → entry.IsInTime map (rest ++ former) := by
  induction since with
  | nil =>
      intro rest hrest
      rwa [List.suffix_nil.mp hrest]
  | cons event since ih =>
      intro rest hrest
      rcases List.suffix_cons_iff.mp hrest with rfl | hrest
      · exact hnow
      · have hlonger : ∀ {short}, short <:+ since → short <:+ event :: since := fun hshort =>
          hshort.trans (List.suffix_cons ..)
        refine ih (fun other rest hrest => hforwards other rest (hlonger hrest))
          (fun other rest hrest => haccesses other rest (hlonger hrest)) ?_ rest hrest
        cases hstart : event.startOf? map entry.seq with
        | some access => exact haccesses event since (List.suffix_refl _) (by simp [hstart])
        | none =>
            -- the entry was last read at the same time, and the clock has gone on since
            obtain ⟨access, haccess, hintime⟩ := hnow
            refine ⟨access, ?_, Nat.le_trans (hforwards event since (List.suffix_refl _)) hintime⟩
            simpa [lastStart?, hstart] using haccess

/-- Whether in an event somebody takes out what a key of a map has. -/
def Event.disturbs [DecidableEq K] (map : Fin n) (key : K) : Event n K V → Bool
  | ofMap other (.left gone departure) =>
      decide (other = map) && decide (gone.key = key) && !decide (departure = .evicted)
  | _ => false

theorem Entry.isTended_iff [DecidableEq K] {entry : Entry K V} {map : Fin n} {now : Instant}
    {since earlier : List (Event n K V)} :
    entry.IsTended map now since earlier ↔
      (∀ event ∈ since, event.disturbs map entry.key = false) ∧
        ∀ rest ∈ since.tails,
          entry.IsInTime map (rest ++ .ofMap map (.placed entry now) :: earlier) := by
  constructor
  · rintro ⟨hundisturbed, hintime⟩
    refine ⟨fun event hevent => ?_, fun rest hrest => hintime rest ((List.mem_tails ..).mp hrest)⟩
    -- of all events only a departure under the key can disturb the entry
    unfold Event.disturbs
    split
    · next other gone departure =>
      by_cases hdisturbs : other = map ∧ gone.key = entry.key
      · obtain ⟨rfl, hkey⟩ := hdisturbs
        simp [hundisturbed gone departure hevent hkey]
      · grind
    · rfl
  · rintro ⟨hundisturbed, hintime⟩
    refine ⟨fun gone departure hleft hkey => ?_, fun rest hrest =>
      hintime rest ((List.mem_tails ..).mpr hrest)⟩
    simpa [Event.disturbs, hkey] using hundisturbed _ hleft

instance (entry : Entry K V) (map : Fin n) (events : List (Event n K V)) :
    Decidable (entry.IsInTime map events) :=
  inferInstanceAs (Decidable (∃ access ∈ lastStart? map entry.seq events,
    (clockTold events).ns ≤ access.ns + entry.timeout.ns))

instance [DecidableEq K] (entry : Entry K V) (map : Fin n) (now : Instant)
    (since earlier : List (Event n K V)) : Decidable (entry.IsTended map now since earlier) :=
  decidable_of_iff _ Entry.isTended_iff.symm

/-- The instant at which an entry was placed in a map, if that is what an event tells. -/
def Event.placing? [DecidableEq K] [DecidableEq V] (map : Fin n) (entry : Entry K V) :
    Event n K V → Option Instant
  | ofMap other (.placed placed now) => if other = map ∧ placed = entry then some now else none
  | _ => none

theorem Event.placing?_eq_some_iff [DecidableEq K] [DecidableEq V] {map : Fin n}
    {entry : Entry K V} {event : Event n K V} {now : Instant} :
    event.placing? map entry = some now ↔ event = .ofMap map (.placed entry now) := by
  unfold placing?
  split
  · next other placed instant => grind
  · next hnot => exact ⟨nofun, fun heq => absurd heq (hnot map entry now)⟩

theorem suffix_append_cons_cases {ι : Type} {short since earlier : List ι} {event : ι}
    (h : short <:+ since ++ event :: earlier) :
    (∃ rest, rest <:+ since ∧ short = rest ++ event :: earlier) ∨ short <:+ earlier := by
  obtain ⟨events, hsplit⟩ := h
  rcases List.append_eq_append_iff.mp hsplit with ⟨rest, rfl, rfl⟩ | ⟨rest, rfl, hshort⟩
  · exact .inl ⟨rest, List.suffix_append .., rfl⟩
  · cases rest with
    | nil => exact .inl ⟨[], List.nil_suffix, hshort.symm⟩
    | cons first rest =>
        obtain ⟨-, rfl⟩ := List.cons.inj hshort
        exact .inr (List.suffix_append ..)

namespace Deployment

/-- Whether an entry has been placed in a map and tended ever since. -/
def Tends (deployment : Deployment n S K V) (map : Fin n) (entry : Entry K V) : Prop :=
  ∃ now since earlier,
    deployment.journal = since ++ .ofMap map (.placed entry now) :: earlier ∧
      entry.IsTended map now since earlier

theorem tends_iff [DecidableEq K] [DecidableEq V] {deployment : Deployment n S K V} {map : Fin n}
    {entry : Entry K V} :
    deployment.Tends map entry ↔ ∃ i : Fin deployment.journal.length,
      ∃ now ∈ deployment.journal[i].placing? map entry,
        entry.IsTended map now (deployment.journal.take i) (deployment.journal.drop (i + 1)) := by
  constructor
  · -- the placing is where the events since then end
    rintro ⟨now, since, earlier, hjournal, htended⟩
    have hlength : since.length < deployment.journal.length := by
      rw [hjournal, List.length_append]
      simp
    refine ⟨⟨since.length, hlength⟩, now, ?_, ?_⟩
    · simp [hjournal, Event.placing?]
    · simpa [hjournal] using htended
  · rintro ⟨i, now, hplacing, htended⟩
    refine ⟨now, _, _, ?_, htended⟩
    have hsplit := List.take_append_drop i.val deployment.journal
    rw [List.drop_eq_getElem_cons i.isLt] at hsplit
    rw [← Event.placing?_eq_some_iff.mp hplacing]
    exact hsplit.symm

instance [DecidableEq K] [DecidableEq V] (deployment : Deployment n S K V) (map : Fin n)
    (entry : Entry K V) : Decidable (deployment.Tends map entry) :=
  decidable_of_iff _ tends_iff.symm

/-- What is tended in the end has been placed in the meantime, or was tended before and has not been
disturbed. -/
theorem Tends.cases {earlier later : Deployment n S K V} {events : List (Event n K V)}
    {map : Fin n} {entry : Entry K V} (h : later.Tends map entry)
    (hjournal : later.journal = events ++ earlier.journal) :
    (∃ now, .ofMap map (.placed entry now) ∈ events) ∨
      earlier.Tends map entry ∧ ∀ gone departure, .ofMap map (.left gone departure) ∈ events →
        gone.key = entry.key → departure = .evicted := by
  obtain ⟨now, since, former, hplaced, htended⟩ := h
  have hsplit : events ++ earlier.journal = since ++ .ofMap map (.placed entry now) :: former :=
    hjournal.symm.trans hplaced
  rcases suffix_append_cons_cases ⟨events, hsplit⟩ with ⟨rest, hrest, hearlier⟩ | hbefore
  · -- it was placed before these events, of which all belong to what has happened since
    refine .inr ⟨⟨now, rest, former, hearlier, ?_, ?_⟩, ?_⟩
    · exact fun gone departure hleft => htended.undisturbed gone departure (hrest.subset hleft)
    · exact fun short hshort => htended.inTime short (hshort.trans hrest)
    · have hsince : since = events ++ rest := by
        rw [hearlier, ← List.append_assoc] at hsplit
        exact (List.append_cancel_right hsplit).symm
      exact fun gone departure hleft =>
        htended.undisturbed gone departure (hsince ▸ List.mem_append_left _ hleft)
  · obtain ⟨between, rfl⟩ := hbefore
    have hevents : events ++ earlier.journal =
        (since ++ .ofMap map (.placed entry now) :: between) ++ earlier.journal := by
      rw [hsplit, List.append_assoc, List.cons_append]
    exact .inl ⟨now, List.append_cancel_right hevents ▸ by simp⟩

end Deployment

/-! ## What scans do not list -/

theorem Instant.passed_after?_eq_false {access now : Instant} {timeout : Duration}
    (h : now.ns ≤ access.ns + timeout.ns) :
    Deadline.passed (access.after? timeout) now = false :=
  Bool.eq_false_iff.mpr fun hpassed =>
    Nat.not_lt.mpr h (Deadline.passed_after?_iff.mp hpassed)

/-- Whether the journal tells all there is to know of numbers, deadlines and the clock. -/
structure Deployment.Told (deployment : Deployment n S K V) : Prop where
  numbered : deployment.Numbered
  dated : deployment.Dated
  clock : deployment.TellsClock

/-- What is known of the relation between two deployments of which one comes of the other. -/
abbrev Deployment.Continues (earlier later : Deployment n S K V) : Prop :=
  (earlier.Proceeds later ∧ (earlier.Numbered → earlier.Dated → later.Dated)) ∧
    (earlier.TellsClock → later.TellsClock)

theorem Deployment.Told.continues {earlier later : Deployment n S K V} (h : earlier.Told)
    (hcontinues : earlier.Continues later) : later.Told where
  numbered := hcontinues.1.1.numbered h.numbered
  dated := hcontinues.1.2 h.numbered h.dated
  clock := hcontinues.2 h.clock

/-- A scan does not list an entry that is going to be tended from its placing until after the
scan. -/
theorem Deployment.seq_ne_of_tends {scanned deployment : Deployment n S K V} {map : Fin n}
    {entry listed : Entry K V} (htold : scanned.Told) (hprecedes : scanned.Precedes deployment)
    (hnumbered : deployment.Numbered) (htends : deployment.Tends map entry)
    (hlisted : listed ∈ (scanned.state map).store.expired scanned.clock.now) :
    listed.seq ≠ entry.seq := by
  intro hseq
  obtain ⟨hstored, hexpired⟩ := List.mem_filter.mp hlisted
  obtain ⟨placed, hplaced, hstems⟩ := (htold.numbered map).stems listed hstored
  obtain ⟨now, since, former, hjournal, htended⟩ := htends
  have hplacings : placings map deployment.journal =
      placings map since ++ entry :: placings map former := by
    rw [hjournal, placings_append]
    simp [placings, Event.placed?, MapEvent.placed?]
  have hdescending := (hnumbered map).descending
  rw [hplacings] at hdescending
  have hsuffix : scanned.journal <:+ since ++ .ofMap map (.placed entry now) :: former :=
    hjournal ▸ (hprecedes : scanned.journal <:+ deployment.journal)
  rcases suffix_append_cons_cases hsuffix with ⟨rest, hrest, hearlier⟩ | hbefore
  · -- the entry had been placed, so what is listed is that entry, which had not expired
    have hsame : placed = entry := by
      refine (htold.numbered map).placed_eq_of_seq_eq hplaced ?_ (hstems.seq.symm.trans hseq)
      rw [hearlier, placings_append]
      simp [placings, Event.placed?, MapEvent.placed?]
    subst hsame
    obtain ⟨access, haccess, hintime⟩ := htended.inTime rest hrest
    obtain ⟨access', haccess', hdeadline⟩ := htold.dated map listed hstored
    rw [hseq, hearlier, haccess] at haccess'
    obtain rfl := Option.some.inj haccess'
    rw [← hearlier, ← htold.clock.now] at hintime
    have hfresh : listed.isExpired scanned.clock.now = false := by
      unfold Entry.isExpired
      rw [hdeadline, hstems.timeout]
      exact Instant.passed_after?_eq_false hintime
    rw [hfresh] at hexpired
    cases hexpired
  · -- what had been placed by then has smaller numbers
    have hformer : placed ∈ placings map former := (hbefore.filterMap _).subset hplaced
    have hless := (List.pairwise_cons.mp (List.pairwise_append.mp hdescending).2.1).1 placed hformer
    have hsame := hstems.seq
    omega

section

variable [DecidableEq K] {plan : Plan n S K V} {consultation : Consultation n S K V}
  {lasts : Deployment n S K V → Deployment n S K V → Prop}

/-- Whatever is done for an entry in the course of a request is done for one that a scan has listed,
and that is none that has been tended. -/
theorem uses_untended (map : Fin n) (request : Request K V) {deployment : Deployment n S K V}
    {earlier rest : List (Moment n S K V)} {moment : Moment n S K V}
    (hprecedes : ∀ map hook,
      Keeps Deployment.Precedes (plan.consult consultation map hook))
    (htold : ∀ moment ∈ (plan.operation map request).trace (plan.respond consultation) deployment,
      moment.before.Told)
    (hsplit : (plan.operation map request).trace (plan.respond consultation) deployment =
      earlier ++ moment :: rest)
    (hfor : moment.act.IsForEntry) :
    ∃ other now found scanned, LatestScan earlier other now found scanned ∧
      moment.act.Uses other found ∧ ∀ later : Deployment n S K V, moment.before.Precedes later →
        later.Numbered → ∀ entry, later.Tends other entry →
          ∀ listed ∈ found, listed.seq ≠ entry.seq := by
  obtain ⟨other, now, found, scanned, hlatest, huses⟩ :=
    goesByScans_serve plan consultation map request deployment earlier moment rest hsplit hfor
  obtain ⟨⟨scan, hscan, hact, rfl⟩, hsince, hfound⟩ := hlatest.of_trace hprecedes hsplit
  -- the scan has listed what had expired at the instant at which the clock stood
  have hnow : scan.before.clock.now = now :=
    goesByClock_serve plan consultation map request deployment scan hscan other _ now hact rfl
  refine ⟨other, now, found, scan.before, hlatest, huses,
    fun later hlater hnumbered entry htends listed hlisted => ?_⟩
  exact Deployment.seq_ne_of_tends (htold scan hscan) (hsince.trans hlater) hnumbered htends
    (hnow ▸ hfound listed hlisted)

/-! ## Tended entries stay -/

namespace Deployment

/-- Whether a map has an entry, with whatever deadline. -/
def Has (deployment : Deployment n S K V) (map : Fin n) (entry : Entry K V) : Prop :=
  ∃ kept, (deployment.state map).store.lookup entry.key = some kept ∧ kept.Stems entry

theorem has_iff {deployment : Deployment n S K V} {map : Fin n} {entry : Entry K V} :
    deployment.Has map entry ↔ ∃ kept ∈ (deployment.state map).store.entries,
      kept.Stems entry := by
  constructor
  · rintro ⟨kept, hlookup, hstems⟩
    exact ⟨kept, Store.mem_of_lookup hlookup, hstems⟩
  · rintro ⟨kept, hkept, hstems⟩
    exact ⟨kept, Store.lookup_eq_some_iff.mpr ⟨hkept, hstems.key⟩, hstems⟩

/-- Whether every entry that has been tended is there. -/
def Cares (deployment : Deployment n S K V) : Prop :=
  ∀ map entry, deployment.Tends map entry → deployment.Has map entry

theorem cares_fresh (drive : Drive) (clockRuns : Bool) (memory : S) :
    (fresh drive clockRuns memory : Deployment n S K V).Cares := by
  rintro map entry ⟨now, since, former, hjournal, -⟩
  have hnil : since ++ .ofMap map (.placed entry now) :: former = [] := hjournal.symm
  simp at hnil

theorem Aside.cares {earlier later : Deployment n S K V} (h : earlier.Aside later)
    (hcares : earlier.Cares) : later.Cares := by
  obtain ⟨events, hjournal, hnone⟩ := h.journal
  intro map entry htends
  rcases htends.cases hjournal with ⟨now, hplaced⟩ | ⟨hbefore, -⟩
  · exact absurd hplaced (hnone map _)
  · have hhas := hcares map entry hbefore
    rw [has_iff] at hhas ⊢
    rwa [h.state]

/-- An act on a map lets no tended entry go, unless it evicts it. -/
theorem Cares.onMap {deployment : Deployment n S K V} (h : deployment.Cares)
    {enumeration : Fin n → Enumeration K V} {map : Fin n} {act : MapAct K V}
    (hspares : ∀ key seq, act = .removeIfSame key seq → ∀ entry,
      (deployment.onMap enumeration map act).2.Tends map entry → seq ≠ entry.seq) :
    (deployment.onMap enumeration map act).2.Cares := by
  intro other entry htends
  have hcases := htends.cases (deployment.journal_onMap enumeration map act)
  rw [has_iff, state_onMap]
  rcases hcases with ⟨now, hplaced⟩ | ⟨hbefore, hundisturbed⟩
  · -- it has just been placed
    obtain ⟨event, hevent, hsame⟩ := List.mem_map.mp (List.mem_reverse.mp hplaced)
    obtain ⟨rfl, rfl⟩ := Event.ofMap.inj hsame
    rw [if_pos rfl]
    exact ⟨entry, (MapAct.mem_of_start (.inl hevent)).1, .refl entry⟩
  · obtain ⟨kept, hkept, hstems⟩ := has_iff.mp (h other entry hbefore)
    by_cases heq : other = map
    · subst heq
      rw [if_pos rfl]
      rcases act.stays_or_leaves (deployment.state other) hkept with
        ⟨still, hstill, hsame⟩ | ⟨gone, departure, hleft, hsame⟩
      · exact ⟨still, hstill, hsame.trans hstems⟩
      · -- nothing but an eviction can have taken it out, and that is of another entry
        obtain rfl := hundisturbed gone departure
          (List.mem_reverse.mpr (List.mem_map_of_mem hleft)) (hsame.key.trans hstems.key)
        have hact : act = .removeIfSame gone.key gone.seq := by
          simpa using MapAct.cases_of_left hleft
        exact absurd (hsame.seq.trans hstems.seq) (hspares _ _ hact entry htends)
    · rw [if_neg heq]
      exact ⟨kept, hkept, hstems⟩

end Deployment

/-- In whatever goes on, tended entries stay where they are. -/
theorem lasting_cares (plan : Plan n S K V) :
    Lasting plan fun earlier later =>
      earlier.Continues later ∧ (earlier.Told → earlier.Cares → later.Cares) := by
  refine ((lasting_dated plan).and (lasting_tellsClock plan)).keeping
    (fun hcontinues htold => htold.continues hcontinues) Deployment.Aside.cares ?_
  intro consultation hconsult map request deployment moments hknown moment hmoment hact hcares
  have hprecedes : ∀ map hook,
      Keeps Deployment.Precedes (plan.consult consultation map hook) := fun map hook before =>
    (hconsult map hook before).1.1.precedes
  have hrespond := Program.respond_of_mem_trace _ hmoment
  -- the moment is one of the request, so what it removes comes from a list made before it
  obtain ⟨sooner, rest, hsplit⟩ := List.append_of_mem hmoment
  have huses := uses_untended map request hprecedes
    (fun moment hmoment => (hknown moment hmoment).1) hsplit
  obtain ⟨-, hafter⟩ := hknown moment hmoment
  obtain ⟨step, answer, before, after⟩ := moment
  obtain ⟨act, rfl⟩ := hact
  obtain rfl : (before.perform plan.enumeration act).2 = after := congrArg Prod.snd hrespond
  rcases before.aside_perform plan.enumeration act with haside | ⟨other, done, rfl⟩
  · exact haside.cares hcares
  · show (before.onMap plan.enumeration other done).2.Cares
    refine Deployment.Cares.onMap hcares fun key seq hremoves entry htends => ?_
    subst hremoves
    obtain ⟨scanned, now, found, -, -, hused, huntended⟩ := huses trivial
    obtain ⟨rfl, listed, hlisted, -, rfl⟩ := hused.exists_listed
    exact huntended _ (before.precedes_onMap plan.enumeration other _) hafter.numbered entry htends
      listed hlisted

end

end ExpiringMap
