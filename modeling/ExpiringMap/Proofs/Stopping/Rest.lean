import ExpiringMap.Proofs.Stopping.Departures

/-!
# Maps that are stopped are at rest

From the moment at which a stop gets through until the next start does, a map is at rest, whatever
has been scheduled and cancelled before, and whatever else goes on (`stopped_maps_rest`).

* A run of any job that the map has ever scheduled comes to nothing.  It calls no hook, takes no
  lock and leaves all stores as they are.
* An entry that has been put since the stop leaves the map only if that is asked for.  A pass that
  was under way when one of its hooks stopped the map does not take it out, not even under the key
  of an entry that has been confirmed.
-/

namespace ExpiringMap

variable {n : Nat} {S K V : Type}

/-- Whether a request asks for an entry of a map to leave in this way, given the steps that have
been taken for it before. -/
def Serving.AsksFor (serving : Serving n S K V) (map : Fin n) (gone : Entry K V)
    (earlier : List (Moment n S K V)) : Departure → Prop
  | .replaced => ∃ value timeout, serving.request = .map (.put gone.key value timeout)
  | .removed => serving.request = .map (.remove gone.key)
  | .evicted => serving.request = .map .purge ∧ ∃ now found scanned,
      LatestScan earlier map now found scanned ∧ scanned.PutSinceStop map gone
  | .cleared => False

variable [DecidableEq K]

/-- Whether a map is at rest whenever it is halted in the course of what is done for a request. -/
structure Serving.Rests (serving : Serving n S K V) (plan : Plan n S K V) (map : Fin n) :
    Prop where
  runs : ∀ moment ∈ serving.moments,
    moment.before.RunsIdly plan map ∧ moment.after.RunsIdly plan map
  departures : ∀ earlier moment later, serving.moments = earlier ++ moment :: later →
    ∀ act, moment.act = .act (.map map act) → ∀ gone departure,
      .left gone departure ∈ act.events (moment.before.state map) →
        moment.before.PutSinceStop map gone →
          serving.map = map ∧ serving.AsksFor map gone earlier departure

section

variable {plan : Plan n S K V} {consultation : Consultation n S K V} {standing : Fin n}
  {request : Request K V} {deployment : Deployment n S K V}

/-- An entry that has been put since a stop is evicted only by a pass that has been asked for and
that has listed it since. -/
theorem purge_of_evicted
    (hprecedes : ∀ map hook, Keeps Deployment.Precedes (plan.consult consultation map hook))
    (hbefore : ∀ moment : Moment n S K V,
      moment ∈ (plan.operation standing request).trace (plan.respond consultation) deployment →
        moment.before.Numbered ∧ moment.before.Sound)
    {earlier later : List (Moment n S K V)} {moment : Moment n S K V}
    (hsplit : (plan.operation standing request).trace (plan.respond consultation) deployment =
      earlier ++ moment :: later) {map : Fin n} {gone : Entry K V}
    (hact : moment.act = .act (.map map (.removeIfSame gone.key gone.seq)))
    (hput : moment.before.PutSinceStop map gone) :
    standing = map ∧ request = .map .purge ∧ ∃ now found scanned,
      LatestScan earlier map now found scanned ∧ scanned.PutSinceStop map gone := by
  have hfor : moment.act.IsForEntry := hact ▸ trivial
  obtain ⟨other, now, found, scanned, hlatest, huses⟩ :=
    goesByScans_serve plan consultation standing request deployment earlier moment later hsplit hfor
  rw [hact] at huses
  obtain ⟨rfl, listed, hlisted, -, hseq⟩ := huses.exists_listed
  obtain ⟨⟨scan, hscan, hscanned, rfl⟩, hsince, hfound⟩ := hlatest.of_trace hprecedes hsplit
  have hstored := (List.mem_filter.mp (hfound listed hlisted)).1
  have hthere : scan.before.PutSinceStop map gone :=
    hput.of_listed (hbefore scan hscan).1 (hbefore moment (by simp [hsplit])).1 hsince hstored hseq
  rcases isDue_serve plan consultation standing request deployment
    (fun moment hmoment => (hbefore moment hmoment).2) scan hscan with
    hasked | ⟨_, _, heq, hallows⟩ | ⟨_, heq, -⟩
  · rw [hscanned] at hasked
    exact ⟨hasked.1.symm, hasked.2, now, found, scan.before, hlatest, hthere⟩
  · -- the phase in which the map has been stopped allows no scan
    obtain ⟨rfl, -⟩ := Act.map.inj (Step.act.inj (hscanned.symm.trans heq))
    have hforbids := (hbefore scan hscan).2.not_allowsRuns hthere.halted
    rw [hallows] at hforbids
    cases hforbids
  · cases hscanned.symm.trans heq

/-- Whatever is done for a request, maps that are halted are at rest in the course of it. -/
theorem serving_rests
    (hconsult : ∀ map hook, Keeps (fun earlier later : Deployment n S K V =>
      earlier.Proceeds later ∧ earlier.Heeds later) (plan.consult consultation map hook))
    (hnumbered : deployment.Numbered) (hsound : deployment.Sound) (map : Fin n) :
    (plan.serving consultation standing request deployment).Rests plan map := by
  have hlasting := (lasting_proceeds plan).and (lasting_heeds plan)
  have hmaintains := hlasting.operation consultation hconsult standing request
  have hbefore : ∀ moment ∈ (plan.serving consultation standing request deployment).moments,
      moment.before.Numbered ∧ moment.before.Sound := by
    intro moment hmoment
    have hlasts := hmaintains.before hlasting.refl hmoment
    exact ⟨hlasts.1.numbered hnumbered, hlasts.2.sound hsound⟩
  constructor
  case runs =>
    intro moment hmoment
    have hafter := ((hmaintains deployment).2 moment hmoment).2.sound hsound
    exact ⟨(hbefore moment hmoment).2.runsIdly plan map, hafter.runsIdly plan map⟩
  case departures =>
    intro earlier moment later hsplit act hact gone departure hleft hput
    have hmoment : moment ∈ (plan.serving consultation standing request deployment).moments := by
      rw [hsplit]
      simp
    have hdue : moment.IsDue standing request :=
      isDue_serve plan consultation standing request deployment
        (fun moment hmoment => (hbefore moment hmoment).2) moment hmoment
    rcases act.cases_of_left hleft with
      ⟨entry, now, rfl, hkey, rfl⟩ | ⟨rfl, rfl⟩ | ⟨rfl, rfl⟩ | ⟨rfl, rfl⟩
    · obtain ⟨hmap, hasked⟩ := hdue.isAskedFor hact (by simp) (by simp)
      exact ⟨hmap.symm, entry.value, entry.timeout, hkey ▸ hasked⟩
    · obtain ⟨hmap, hasked⟩ := hdue.isAskedFor hact (by simp) (by simp)
      exact ⟨hmap.symm, hasked⟩
    · have hprecedes : ∀ map hook,
          Keeps Deployment.Precedes (plan.consult consultation map hook) := fun map hook before =>
        (hconsult map hook before).1.precedes
      exact purge_of_evicted hprecedes hbefore hsplit hact hput
    · rcases hdue with hasked | ⟨_, _, heq, -⟩ | ⟨_, heq, hnone⟩
      · rw [hact] at hasked
        exact hasked.elim
      · cases hact.symm.trans heq
      · obtain ⟨rfl, -⟩ := Act.map.inj (Step.act.inj (hact.symm.trans heq))
        exact absurd hput (hnone gone)

end

variable (plan : Plan n S K V) (depth : Nat) (drive : Drive) (clockRuns : Bool) (memory : S)
  (standing : Fin n) (calls : List (Call n K V)) (map : Fin n)

/-- However calls are made and whatever hooks do, maps have been at rest at all times at which they
were halted, and so they are in the end. -/
theorem stopped_maps_rest :
    let fresh := Deployment.fresh drive clockRuns memory
    let last := (plan.serveCalls (plan.consultation depth) standing calls fresh).2
    last.RunsIdly plan map ∧
      ∀ serving ∈ plan.servingsOfCalls (plan.listing depth) (plan.consultation depth) standing
        calls fresh, serving.Rests plan map := by
  intro fresh last
  have hnumbered : fresh.Numbered :=
    (Plan.Reachable.fresh drive clockRuns memory : plan.Reachable fresh).numbered
  have hsound : fresh.Sound := Deployment.sound_fresh drive clockRuns memory
  have haccrues : Accrues plan fun earlier servings later =>
      (earlier.Proceeds later ∧ earlier.Heeds later) ∧
        ∀ serving ∈ servings, earlier.Numbered → earlier.Sound → serving.Rests plan map :=
    ((lasting_proceeds plan).and (lasting_heeds plan)).accrues
      (fun hlasts hrests hnumbered hsound =>
        hrests (hlasts.1.numbered hnumbered) (hlasts.2.sound hsound))
      fun consultation hconsult standing request deployment hnumbered hsound =>
        serving_rests hconsult hnumbered hsound map
  obtain ⟨hlast, hservings⟩ := haccrues.calls depth standing calls fresh
  exact ⟨(hlast.2.sound hsound).runsIdly plan map, fun serving hserving =>
    hservings serving hserving hnumbered hsound⟩

/-- One map whose eviction hook stops it and puts something else under the key that it is told of,
before it says yes. -/
def restocking : Plan 1 Unit Nat Nat where
  settings _ :=
    { policy := .listener fun hook memory =>
        match hook with
        | .screening _ => (memory, .answer (.ok true))
        | .eviction key _ =>
            (memory, .ofCalls (.ok true)
              [.ask [] (.map .stop), .ask [] (.map (.put key 71 .zero))]) }
  enumeration _ := .asStored

/-- A start, a put, and two runs of the job, each after a while. -/
def putAndRun : List (Call 1 Nat Nat) :=
  [.ask [] (.map .start), .ask [] (.map (.put 7 70 .zero)), .ask [] (.advance 1),
    .ask [] (.runJob 0), .ask [] (.advance 1), .ask [] (.runJob 0)]

/-- The first run ends by taking out what its hook has confirmed, and the second one finds that what
has been put instead has expired, but the map has been stopped, so it is still there.  Yet another
run would come to nothing, too. -/
theorem stopped_maps_rest_restocked :
    let fresh := Deployment.fresh (.byHand false true) false ()
    let last := (restocking.serveCalls (restocking.consultation 1) 0 putAndRun fresh).2
    let entry : Entry Nat Nat := ⟨7, 71, .zero, 1, some ⟨1, by decide⟩⟩
    (last.PutSinceStop 0 entry ∧ entry.isExpired last.clock.now = true ∧
        (last.state 0).store.lookup 7 = some entry) ∧
      (∀ moment : Moment 1 Unit Nat Nat,
        moment ∈ (Operation.runJob 0).trace (restocking.respond (restocking.consultation 1)) last →
          moment.IsIdle) ∧
      ∀ serving ∈ restocking.servingsOfCalls (restocking.listing 1) (restocking.consultation 1) 0
        putAndRun fresh, serving.Rests restocking 0 := by
  intro fresh last entry
  obtain ⟨hlast, hservings⟩ := stopped_maps_rest restocking 1 (.byHand false true) false () 0
    putAndRun 0
  have hhalted : last.IsHalted 0 := by
    show lastCall? 0 last.journal = some .stop
    decide +kernel
  have hplaced : entry ∈ placings 0 (last.sinceCall 0) := by decide +kernel
  refine ⟨⟨⟨hhalted, entry, hplaced, .refl entry⟩, by decide +kernel, by decide +kernel⟩, ?_,
    hservings⟩
  have howned : (last.scheduler.jobs[0]?).map Job.owner = some 0 := by decide +kernel
  obtain ⟨job, hjob, howner⟩ := Option.map_eq_some_iff.mp howned
  have hidly : last.RunsIdly restocking 0 := hlast
  exact hidly hhalted 0 job hjob howner Operation.retire (restocking.consultation 1)

end ExpiringMap
