import ExpiringMap.Proofs.Pass.Decided
import ExpiringMap.Proofs.Pass.Notification
import ExpiringMap.Proofs.Reference.Refinement

/-!
# Passes that are made again and again

As long as the hooks of a map only decide and nothing but passes changes its store, it does not
matter how many passes are made, nor when: in the end the same entries have been evicted, and in the
same order, as if a single pass had been made at the latest of all those instants
(`rounds_like_single`).

Such a pass takes those of the expired entries that both hooks say yes to, in order (`Store.taken`),
and leaves the others (`Store.spared`).  What has expired at an instant has expired at every later
one and comes before all that expires in between, so what two passes take one after the other is
what the later one would have taken alone (`taken_append`).  What the hooks have refused stays in
its place, and is shown to them again.
-/

namespace ExpiringMap

variable {n : Nat} {S K V : Type}

/-! ## What a pass takes, and what it leaves -/

namespace Store

variable {store : Store K V} {evicts : Entry K V → Bool} {now later : Instant}

/-- What a pass at an instant takes, in order, if it is to take such entries. -/
def taken (store : Store K V) (now : Instant) (evicts : Entry K V → Bool) : List (Entry K V) :=
  Entry.inOrder ((store.expired now).filter evicts)

/-- What such a pass leaves. -/
def spared (store : Store K V) (now : Instant) (evicts : Entry K V → Bool) : Store K V :=
  store.restrict fun entry => !(entry.isExpired now && evicts entry)

/-- Whether there is nothing in a store that such a pass would take. -/
def Settled (store : Store K V) (now : Instant) (evicts : Entry K V → Bool) : Prop :=
  ∀ entry ∈ store.entries, (entry.isExpired now && evicts entry) = false

theorem settled_spared (store : Store K V) (now : Instant) (evicts : Entry K V → Bool) :
    (store.spared now evicts).Settled now evicts := by
  intro entry hentry
  simpa only [Bool.not_eq_true'] using (List.mem_filter.mp hentry).2

theorem Settled.spared (h : store.Settled later evicts) (now : Instant) :
    (store.spared now evicts).Settled later evicts :=
  fun entry hentry => h entry (List.mem_filter.mp hentry).1

theorem Settled.earlier (h : store.Settled later evicts) (hle : now ≤ later) :
    store.Settled now evicts := by
  intro entry hentry
  have hlater := h entry hentry
  grind [Entry.isExpired_mono]

theorem Settled.taken_eq_nil (h : store.Settled now evicts) : store.taken now evicts = [] := by
  have hnone : (store.expired now).filter evicts = [] := by
    refine List.filter_eq_nil_iff.mpr fun entry hentry hevicts => ?_
    obtain ⟨hmem, hexpired⟩ := List.mem_filter.mp hentry
    simpa [hexpired, hevicts] using h entry hmem
  rw [taken, hnone]
  rfl

theorem Settled.spared_eq_self (h : store.Settled now evicts) : store.spared now evicts = store :=
  restrict_eq_self fun entry hentry => by rw [h entry hentry, Bool.not_false]

/-- Two passes leave what the later one would have left alone. -/
theorem spared_spared (store : Store K V) (evicts : Entry K V → Bool) (hle : now ≤ later) :
    (store.spared now evicts).spared later evicts = store.spared later evicts := by
  rw [spared, spared, restrict_restrict]
  refine restrict_congr fun entry _ => ?_
  grind [Entry.isExpired_mono]

/-- Two passes take what the later one would have taken alone, in the same order. -/
theorem taken_append (hapart : Entry.Apart store.entries) (evicts : Entry K V → Bool)
    (hle : now ≤ later) :
    store.taken now evicts ++ (store.spared now evicts).taken later evicts =
      store.taken later evicts := by
  have hsplit := List.filter_append_perm (fun entry => entry.isExpired now)
    ((store.expired later).filter evicts)
  have hfirst : ((store.expired later).filter evicts).filter (fun entry => entry.isExpired now) =
      (store.expired now).filter evicts := by
    simp only [expired, List.filter_filter]
    refine List.filter_congr fun entry _ => ?_
    grind [Entry.isExpired_mono]
  have hsecond : ((store.expired later).filter evicts).filter
      (fun entry => !entry.isExpired now) =
        ((store.spared now evicts).expired later).filter evicts := by
    simp only [expired, spared, entries_restrict, List.filter_filter]
    refine List.filter_congr fun entry _ => ?_
    grind
  rw [hfirst, hsecond] at hsplit
  have hexpired : Entry.Apart ((store.expired later).filter evicts) :=
    (hapart.filter _).filter evicts
  refine (Entry.Apart.inOrder_append (hexpired.subset hsplit.subset) ?_).trans
    (hexpired.inOrder_eq hsplit)
  -- what the second pass takes had not expired at the first
  intro first hfirst second hsecond
  obtain ⟨hmem, hevicts⟩ := List.mem_filter.mp hsecond
  have hexpired := (List.mem_filter.mp (List.mem_filter.mp hfirst).1).2
  have hspared := settled_spared store now evicts second (List.mem_filter.mp hmem).1
  rw [hevicts, Bool.and_true] at hspared
  exact Entry.notAfter_of_isExpired hexpired hspared

end Store

/-! ## What a pass has confirmed -/

section Confirmed

open Operation

variable [DecidableEq K]

/-- The entry of a store that the eviction hook of a map has confirmed in a consultation. -/
def confirmedIn? (map : Fin n) (store : Store K V) :
    Fin n × Hook K V × Outcome Bool → Option (Entry K V)
  | (other, .eviction key _, .ok true) => if other = map then store.lookup key else none
  | _ => none

/-- The entries that are confirmed for eviction in a pass that is made now, in the order in which
the eviction hook is told of them. -/
def Plan.confirmed (plan : Plan n S K V) (depth : Nat) (map : Fin n)
    (deployment : Deployment n S K V) : List (Entry K V) :=
  (consultations ((pass map).trace (plan.respond (plan.consultation depth)) deployment)).filterMap
    (confirmedIn? map (deployment.state map).store)

theorem filterMap_confirmed_screenings (map : Fin n) (store : Store K V)
    (screened : List (Entry K V × Outcome Bool)) :
    (screenings map screened).filterMap (confirmedIn? map store) = [] := by
  induction screened with
  | nil => rfl
  | cons pair rest ih => exact ih

/-- What the eviction hook has said yes to has been confirmed. -/
theorem filterMap_confirmed_notifications {map : Fin n} {store : Store K V}
    {notified : List (Entry K V × Outcome Bool)}
    (h : ∀ pair ∈ notified, pair.1 ∈ store.entries) :
    (notifications map notified).filterMap (confirmedIn? map store) = agreed notified := by
  induction notified with
  | nil => rfl
  | cons pair rest ih =>
      obtain ⟨entry, verdict⟩ := pair
      obtain ⟨hentry, hrest⟩ := List.forall_mem_cons.mp h
      have hlookup := Store.lookup_eq_some_iff.mpr ⟨hentry, rfl⟩
      rw [notifications_cons, agreed_cons, List.filterMap_cons, ih hrest]
      rcases verdict with panic | _ | _ <;> simp [confirmedIn?, Outcome.isYes, hlookup]

variable {plan : Plan n S K V} {map : Fin n} {verdicts : Verdicts K V}
  {deployment : Deployment n S K V}

/-- Whether hooks of these verdicts let an entry go. -/
def Verdicts.evictsEntry (verdicts : Verdicts K V) (entry : Entry K V) : Bool :=
  verdicts.evicts entry.key entry.value entry.timeout

/-- A pass whose hooks only decide confirms what has expired and both hooks say yes to, in order. -/
theorem confirmed_decided (hdecides : (plan.settings map).policy.Decides verdicts) (depth : Nat)
    (hapart : Entry.Apart (deployment.state map).store.entries) :
    plan.confirmed (depth + 1) map deployment =
      (deployment.state map).store.taken (deployment.onClock .read).1 verdicts.evictsEntry := by
  obtain ⟨found, screened, notified, hconsulted, -, hfound, hshort, hresult⟩ :=
    inquiry_course plan (plan.consultation (depth + 1)) map deployment
  obtain ⟨hscreened, hnotified⟩ := verdicts_of_consultations hdecides hconsulted
  have hmem : ∀ pair ∈ notified, pair.1 ∈ (deployment.state map).store.entries := fun pair hpair =>
    hresult.mem_entries hfound hshort (List.mem_append_right screened hpair)
  rw [Plan.confirmed, consultations_pass, hconsulted, List.filterMap_append,
    filterMap_confirmed_screenings, List.nil_append, filterMap_confirmed_notifications hmem]
  generalize ((inquiry map).run _ deployment).1 = result at hresult
  rcases result with panic | ⟨candidates, confirmed⟩
  · -- no screening panics
    obtain ⟨-, entry, hentry⟩ := hresult
    exact absurd (hscreened _ hentry) (by simp [Verdicts.on])
  obtain ⟨hall, -, hcandidates, hinTurn, -⟩ := hresult
  have hexpired : Entry.Apart ((deployment.state map).store.expired (deployment.onClock .read).1) :=
    hapart.filter _
  rw [agreed_eq_filter notified (fun entry => verdicts.confirms entry.key entry.value) hnotified,
    hinTurn, hcandidates,
    agreed_eq_filter screened (fun entry => verdicts.on (.screening entry)) hscreened, hall,
    ((hexpired.subset hfound.subset).filter _).filter_inOrder, List.filter_filter]
  have hboth : (fun entry : Entry K V => (verdicts.confirms entry.key entry.value).isYes &&
      (verdicts.on (.screening entry)).isYes) = verdicts.evictsEntry :=
    funext fun entry => Bool.and_comm ..
  rw [hboth]
  exact (hexpired.filter _).inOrder_eq (hfound.filter _)

/-- A pass whose hooks only decide spares what has not expired and what a hook refuses. -/
theorem store_pass_decided (hdecides : (plan.settings map).policy.Decides verdicts) (depth : Nat)
    (deployment : Deployment n S K V) :
    ((plan.run (depth + 1) (pass map) deployment).2.state map).store =
      (deployment.state map).store.spared (deployment.onClock .read).1 verdicts.evictsEntry :=
  (pass_decided hdecides depth deployment).2

end Confirmed

/-! ## Rounds -/

section Rounds

open Operation

variable [DecidableEq K]

/-- A pass that has been made: when, and what was confirmed for eviction. -/
structure Round (K V : Type) where
  now : Instant
  confirmed : List (Entry K V)

/-- Passes of a map are made one after the other.  In between the clock may be moved, and anything
else may be done that leaves the store of the map as it is. -/
inductive Plan.Rounds (plan : Plan n S K V) (depth : Nat) (map : Fin n) :
    Deployment n S K V → List (Round K V) → Deployment n S K V → Prop
  | done (deployment : Deployment n S K V) : Rounds plan depth map deployment [] deployment
  | meanwhile {deployment other last : Deployment n S K V} {rounds : List (Round K V)} :
      (other.state map).store = (deployment.state map).store →
      Rounds plan depth map other rounds last → Rounds plan depth map deployment rounds last
  | pass {deployment last : Deployment n S K V} {rounds : List (Round K V)} :
      Rounds plan depth map (plan.run depth (pass map) deployment).2 rounds last →
      Rounds plan depth map deployment
        (⟨(deployment.onClock .read).1, plan.confirmed depth map deployment⟩ :: rounds) last

variable {plan : Plan n S K V} {map : Fin n} {verdicts : Verdicts K V} {depth : Nat}
  {deployment last : Deployment n S K V} {rounds : List (Round K V)} {now : Instant}

/-- However many passes are made up to an instant, a pass at that instant leaves and takes the same
in the end, together with what they have taken. -/
theorem Plan.Rounds.conserves (h : plan.Rounds (depth + 1) map deployment rounds last)
    (hdecides : (plan.settings map).policy.Decides verdicts)
    (hapart : Entry.Apart (deployment.state map).store.entries)
    (hwithin : ∀ round ∈ rounds, round.now ≤ now) :
    (last.state map).store.spared now verdicts.evictsEntry =
        (deployment.state map).store.spared now verdicts.evictsEntry ∧
      (rounds.map Round.confirmed).flatten ++
          (last.state map).store.taken now verdicts.evictsEntry =
        (deployment.state map).store.taken now verdicts.evictsEntry := by
  induction h with
  | done deployment => exact ⟨rfl, rfl⟩
  | meanwhile hsame _ ih => exact hsame ▸ ih (hsame ▸ hapart) hwithin
  | pass _ ih =>
      obtain ⟨hle, hrest⟩ := List.forall_mem_cons.mp hwithin
      rw [store_pass_decided hdecides] at ih
      obtain ⟨hspared, htaken⟩ := ih (hapart.filter _) hrest
      -- what one round confirms and what is left to take from its store make up what there was
      refine ⟨hspared.trans (Store.spared_spared _ _ hle), ?_⟩
      rw [List.map_cons, List.flatten_cons, List.append_assoc, htaken,
        confirmed_decided hdecides depth hapart]
      exact Store.taken_append hapart _ hle

/-- Once a pass has been made at an instant, there is nothing left that it would take. -/
theorem Plan.Rounds.settled (h : plan.Rounds (depth + 1) map deployment rounds last)
    (hdecides : (plan.settings map).policy.Decides verdicts)
    (hone : (deployment.state map).store.Settled now verdicts.evictsEntry ∨
      ∃ round ∈ rounds, round.now = now) :
    (last.state map).store.Settled now verdicts.evictsEntry := by
  -- a round at the time itself leaves the store settled, and it stays so
  induction h with
  | done deployment => exact hone.resolve_right (by simp)
  | meanwhile hsame _ ih => exact ih (hsame ▸ hone)
  | pass _ ih =>
      refine ih ?_
      rw [store_pass_decided hdecides]
      rcases hone with hsettled | ⟨round, hround, rfl⟩
      · exact .inl (hsettled.spared _)
      · rcases List.mem_cons.mp hround with rfl | hround
        · exact .inl (Store.settled_spared _ _ _)
        · exact .inr ⟨round, hround, rfl⟩

/-- Passes whose hooks only decide evict what a single pass would have evicted at the latest of
their instants, in the same order.  After that a pass at the same instant, or at an earlier one,
finds nothing to evict. -/
theorem rounds_like_single {history : Plan n S K V}
    (hdecides : (plan.settings map).policy.Decides verdicts)
    (hreachable : history.Reachable deployment)
    (hrounds : plan.Rounds (depth + 1) map deployment rounds last)
    (hwithin : ∀ round ∈ rounds, round.now ≤ now) (hone : ∃ round ∈ rounds, round.now = now)
    {single : Deployment n S K V}
    (hstore : (single.state map).store = (deployment.state map).store)
    (hnow : (single.onClock .read).1 = now) :
    (last.state map).store = ((plan.run (depth + 1) (pass map) single).2.state map).store ∧
      (rounds.map Round.confirmed).flatten = plan.confirmed (depth + 1) map single ∧
      ∀ again : Deployment n S K V, (again.state map).store = (last.state map).store →
        (again.onClock .read).1 ≤ now →
          ((plan.run (depth + 1) (pass map) again).2.state map).store = (last.state map).store ∧
            plan.confirmed (depth + 1) map again = [] := by
  have hapart := (hreachable.numbered map).apart
  -- together the rounds spare and take what a single pass spares and takes
  obtain ⟨hspared, htaken⟩ := hrounds.conserves hdecides hapart hwithin
  have hsettled := hrounds.settled hdecides (.inr hone)
  rw [hsettled.spared_eq_self] at hspared
  rw [hsettled.taken_eq_nil, List.append_nil] at htaken
  rw [store_pass_decided hdecides, confirmed_decided hdecides depth (hstore ▸ hapart), hstore, hnow]
  -- a further pass that is not later finds nothing that it could take
  refine ⟨hspared, htaken, fun again hagain hle => ?_⟩
  have hnothing := hsettled.earlier hle
  rw [← hagain] at hnothing ⊢
  rw [store_pass_decided hdecides, confirmed_decided hdecides depth]
  · exact ⟨hnothing.spared_eq_self, hnothing.taken_eq_nil⟩
  · rw [hagain, hspared]
    exact hapart.filter _

end Rounds

/-- The map of hooks that let odd keys pass, with three entries: one that is about to expire, one
that does so six nanoseconds later, and one that is never let pass. -/
def expiring : Deployment 1 Unit Nat Nat :=
  let ask (request : MapRequest Nat Nat) (deployment : Deployment 1 Unit Nat Nat) :=
    (deciding.run 0 (deciding.operation ⟨0, Nat.zero_lt_one⟩ (.map request)) deployment).2
  ask (.put 9 90 ⟨6, by decide⟩) <| ask (.put 8 80 .zero) <| ask (.put 7 70 .zero) <|
    .fresh (.byHand false false) false ()

theorem reachable_expiring : deciding.Reachable expiring :=
  (((Plan.Reachable.fresh _ _ _).run 0 0 _).run 0 0 _).run 0 0 _

/-- That deployment when the clock shows so many nanoseconds. -/
def expiringAt (ns : Nat) (deployment : Deployment 1 Unit Nat Nat) : Deployment 1 Unit Nat Nat :=
  { deployment with clock := { now := .clamp ns } }

theorem fst_onClock_expiringAt (ns : Nat) (deployment : Deployment 1 Unit Nat Nat) :
    ((expiringAt ns deployment).onClock .read).1 = .clamp ns := rfl

theorem store_expiringAt (ns : Nat) (deployment : Deployment 1 Unit Nat Nat) :
    ((expiringAt ns deployment).state 0).store = (deployment.state 0).store := rfl

/-- A pass when the first entry has expired and another one when the second has evict both in turn,
as the second pass would have done alone. -/
theorem rounds_like_single_expiring :
    ∃ (rounds : List (Round Nat Nat)) (last : Deployment 1 Unit Nat Nat),
      rounds.map Round.now = [.clamp 5, .clamp 9] ∧
      (last.state 0).store =
        ((deciding.run 1 (Operation.pass 0) (expiringAt 9 expiring)).2.state 0).store ∧
      (rounds.map Round.confirmed).flatten = deciding.confirmed 1 0 (expiringAt 9 expiring) := by
  have hdecides : (deciding.settings 0).policy.Decides oddOnly := fun hook => by
    cases hook <;> exact fun _ => rfl
  -- named, lest the two deployments be evaluated
  obtain ⟨first, hfirst⟩ : ∃ first, first = expiringAt 5 expiring := ⟨_, rfl⟩
  obtain ⟨second, hsecond⟩ : ∃ second,
    second = expiringAt 9 (deciding.run 1 (Operation.pass 0) first).2 := ⟨_, rfl⟩
  have hrounds : deciding.Rounds 1 0 expiring
      [⟨(first.onClock .read).1, deciding.confirmed 1 0 first⟩,
        ⟨(second.onClock .read).1, deciding.confirmed 1 0 second⟩]
      (deciding.run 1 (Operation.pass 0) second).2 := by
    refine .meanwhile (hfirst ▸ store_expiringAt 5 expiring) (.pass ?_)
    exact .meanwhile (hsecond ▸ store_expiringAt 9 _) (.pass (.done _))
  have hnow : (first.onClock .read).1 = .clamp 5 := hfirst ▸ fst_onClock_expiringAt 5 expiring
  have hnow' : (second.onClock .read).1 = .clamp 9 := hsecond ▸ fst_onClock_expiringAt 9 _
  rw [hnow, hnow'] at hrounds
  have hle : Instant.clamp 5 ≤ .clamp 9 := by decide
  obtain ⟨hstore, hconfirmed, -⟩ := rounds_like_single hdecides
    reachable_expiring hrounds (List.forall_mem_cons.mpr ⟨hle, by simp [Instant.le_def]⟩) (by simp)
    (store_expiringAt 9 expiring) (fst_onClock_expiringAt 9 expiring)
  exact ⟨_, _, rfl, hstore, hconfirmed⟩

example : (deciding.confirmed 1 0 (expiringAt 9 expiring)).map Entry.key = [7, 9] := by
  decide +kernel

end ExpiringMap
