import ExpiringMap.Proofs.Entries.Tending
import ExpiringMap.Proofs.Servings

/-!
# Entries are kept alive

An entry stays in its map, answers every reading and is shown to no hook as long as it is tended:
nobody puts or removes its key or stops the map, and the clock never gets further than the timeout
from the last time it was placed or read (`tended_entries_stay`).  What passes do meanwhile, and
what hooks do in them, makes no difference.

The boundary is part of that.  A pass at the deadline itself takes nothing out, and so does one at
any time if the timeout is zero and the clock stands still, or if the clock ends before the
deadline.
-/

namespace ExpiringMap

variable {n : Nat} {S K V : Type} [DecidableEq K]

/-- What is asked of a map is done in the deployment that borrowing its handle leaves, and that
gives the answer. -/
theorem Plan.serving_of_hasHandle (plan : Plan n S K V) (consultation : Consultation n S K V)
    (map : Fin n) (request : MapRequest K V) (deployment : Deployment n S K V)
    (h : (deployment.state map).hasHandle = true) :
    let serving := plan.serving consultation map (.map request) deployment
    let body := Operation.serveMap (plan.settings map) map request
    let borrowed := (deployment.onMap plan.enumeration map .borrow).2
    serving.outcome = (body.run (plan.respond consultation) borrowed).1 ∧
      body.trace (plan.respond consultation) borrowed ⊆ serving.moments := by
  have hborrowed :
      MapAct.borrow.answer (plan.enumeration map) (deployment.state map) = true := h
  constructor
  · simp [Plan.serving, Plan.operation, Operation.serve, Operation.withHandle, Operation.borrow,
      Operation.onMap, Plan.respond, Deployment.perform, hborrowed]
  · simp [Plan.serving, Plan.operation, Operation.serve, Operation.withHandle, Operation.borrow,
      Operation.onMap, Plan.respond, Deployment.perform, hborrowed]

/-- A reading that is asked for gives what is found when the entry is read, unless the map has no
handle. -/
theorem read_of_get (plan : Plan n S K V) (consultation : Consultation n S K V) (map : Fin n)
    (key : K) (deployment : Deployment n S K V) :
    let serving := plan.serving consultation map (.map (.get key)) deployment
    serving.outcome = .ok .noHandle ∨
      ∃ moment ∈ serving.moments, (∃ now, moment.act = .act (.map map (.read key now))) ∧
        serving.outcome =
          .ok (.value (((moment.before.state map).store.lookup key).map Entry.value)) := by
  intro serving
  cases hhandle : (deployment.state map).hasHandle with
  | false =>
      refine .inl ?_
      have hborrowed :
          MapAct.borrow.answer (plan.enumeration map) (deployment.state map) = false := hhandle
      simp [serving, Plan.serving, Plan.operation, Operation.serve, Operation.withHandle,
        Operation.borrow, Operation.onMap, Plan.respond, Deployment.perform, hborrowed]
  | true =>
      obtain ⟨houtcome, hmoments⟩ :=
        plan.serving_of_hasHandle consultation map (.get key) deployment hhandle
      refine .inr ?_
      set borrowed := (deployment.onMap plan.enumeration map .borrow).2
      set locked := (borrowed.onMap plan.enumeration map .lock).2 with hlocked
      set timed := (locked.onClock .read).2 with htimed
      refine ⟨⟨.act (.map map (.read key (locked.onClock .read).1)), _, timed, _⟩,
        hmoments (List.mem_cons_of_mem _ (List.mem_cons_of_mem _ (List.mem_cons_self ..))),
        ⟨_, rfl⟩, ?_⟩
      rw [houtcome]
      rfl

/-- What comes of an entry of a map, in the course of what is done for a request, while it is
tended. -/
structure Serving.Minds (serving : Serving n S K V) (map : Fin n) (entry : Entry K V) : Prop where
  /-- It is there before and after every step. -/
  there : ∀ moment ∈ serving.moments,
    (moment.before.Tends map entry → moment.before.Has map entry) ∧
      (moment.after.Tends map entry → moment.after.Has map entry)
  /-- If it is what is asked for, then its value is the answer. -/
  answers : serving.map = map → serving.request = .map (.get entry.key) →
    serving.outcome = .ok .noHandle ∨
      ∃ moment ∈ serving.moments, (∃ now, moment.act = .act (.map map (.read entry.key now))) ∧
        (moment.before.Tends map entry → serving.outcome = .ok (.value (some entry.value)))
  /-- Whenever a hook is called, it is with an entry that the latest scan has listed, and that is
  another one. -/
  unshown : ∀ earlier moment later, serving.moments = earlier ++ moment :: later →
    moment.before.Tends map entry → ∀ hook, moment.act = .consult map hook →
      ∃ now found scanned, LatestScan earlier map now found scanned ∧
        (∃ shown ∈ found, hook.IsAbout shown) ∧ ∀ listed ∈ found, listed.seq ≠ entry.seq

/-- Whatever is done for a request, tended entries are minded in the course of it. -/
theorem serving_minds {plan : Plan n S K V} {consultation : Consultation n S K V}
    (hconsult : ∀ map hook, Keeps (fun earlier later : Deployment n S K V =>
      earlier.Continues later ∧ (earlier.Told → earlier.Cares → later.Cares))
        (plan.consult consultation map hook))
    (standing : Fin n) (request : Request K V) {deployment : Deployment n S K V}
    (htold : deployment.Told) (hcares : deployment.Cares) (map : Fin n) (entry : Entry K V) :
    (plan.serving consultation standing request deployment).Minds map entry := by
  have hlasting := lasting_cares plan
  have hmaintains := hlasting.operation consultation hconsult standing request
  have hbefore : ∀ moment ∈ (plan.serving consultation standing request deployment).moments,
      moment.before.Told ∧ moment.before.Cares := by
    intro moment hmoment
    have hlasts := hmaintains.before hlasting.refl hmoment
    exact ⟨htold.continues hlasts.1, hlasts.2 htold hcares⟩
  constructor
  case there =>
    intro moment hmoment
    have hlasts := (hmaintains deployment).2 moment hmoment
    exact ⟨(hbefore moment hmoment).2 map entry, hlasts.2 htold hcares map entry⟩
  case answers =>
    rintro rfl rfl
    rcases read_of_get plan consultation standing entry.key deployment with
      hnone | ⟨moment, hmoment, hread, houtcome⟩
    · exact .inl hnone
    · refine .inr ⟨moment, hmoment, hread, fun htends => ?_⟩
      obtain ⟨kept, hlookup, hstems⟩ := (hbefore moment hmoment).2 standing entry htends
      show (plan.serving consultation standing (.map (.get entry.key)) deployment).outcome = _
      rw [houtcome, hlookup, Option.map_some, hstems.value]
  case unshown =>
    intro earlier moment later hsplit htends hook hact
    have hprecedes : ∀ map hook,
        Keeps Deployment.Precedes (plan.consult consultation map hook) := fun map hook before =>
      (hconsult map hook before).1.1.1.precedes
    have hmoment : moment ∈ (plan.serving consultation standing request deployment).moments := by
      rw [hsplit]
      simp
    have hfor : moment.act.IsForEntry := hact ▸ trivial
    obtain ⟨other, now, found, scanned, hlatest, huses, huntended⟩ :=
      uses_untended standing request hprecedes (fun moment hmoment => (hbefore moment hmoment).1)
        hsplit hfor
    rw [hact] at huses
    obtain ⟨shown, hshown, about, habout, heq⟩ | ⟨removed, -, heq⟩ := huses
    · obtain ⟨rfl, rfl⟩ := Step.consult.inj heq
      have hnumbered := (hbefore moment hmoment).1.numbered
      exact ⟨now, found, scanned, hlatest, ⟨shown, hshown, habout⟩,
        huntended moment.before (List.suffix_refl _) hnumbered entry htends⟩
    · cases heq

variable (plan : Plan n S K V) (depth : Nat) (drive : Drive) (clockRuns : Bool) (memory : S)
  (standing : Fin n) (calls : List (Call n K V)) (map : Fin n) (entry : Entry K V)

/-- However calls are made and whatever hooks do, an entry that has been tended is in its map, and
it has been so at all times; it was what readings of its key gave, and no hook was called with
it. -/
theorem tended_entries_stay :
    let fresh := Deployment.fresh drive clockRuns memory
    let last := (plan.serveCalls (plan.consultation depth) standing calls fresh).2
    (last.Tends map entry → last.Has map entry) ∧
      ∀ serving ∈ plan.servingsOfCalls (plan.listing depth) (plan.consultation depth) standing
        calls fresh, serving.Minds map entry := by
  intro fresh last
  have htold : fresh.Told :=
    ⟨(Plan.Reachable.fresh drive clockRuns memory : plan.Reachable fresh).numbered,
      Deployment.dated_fresh drive clockRuns memory,
      Deployment.tellsClock_fresh drive clockRuns memory⟩
  have hcares : fresh.Cares := Deployment.cares_fresh drive clockRuns memory
  have haccrues : Accrues plan fun earlier servings later =>
      (earlier.Continues later ∧ (earlier.Told → earlier.Cares → later.Cares)) ∧
        ∀ serving ∈ servings, earlier.Told → earlier.Cares → serving.Minds map entry :=
    (lasting_cares plan).accrues
      (fun hlasts hminds htold hcares =>
        hminds (htold.continues hlasts.1) (hlasts.2 htold hcares))
      fun consultation hconsult standing request deployment htold hcares =>
        serving_minds hconsult standing request htold hcares map entry
  obtain ⟨hlast, hservings⟩ := haccrues.calls depth standing calls fresh
  exact ⟨hlast.2 htold hcares map entry, fun serving hserving =>
    hservings serving hserving htold hcares⟩

/-- A put, and twice a pass at the deadline itself with a reading after it. -/
def putAndKeep : List (Call 1 Nat Nat) :=
  [.ask [] (.map (.put 7 70 .second)), .ask [] (.advance 1000000000), .ask [] (.map .purge),
    .ask [] (.map (.get 7)), .ask [] (.advance 1000000000), .ask [] (.map .purge),
    .ask [] (.map (.get 7))]

/-- Two seconds after it was put, an entry is still there that expires a second after it was last
read, though its eviction hook would let it go. -/
theorem tended_entries_stay_renewing :
    let fresh := Deployment.fresh (.byHand false false) false ()
    let last := (renewing.serveCalls (renewing.consultation 1) 0 putAndKeep fresh).2
    let entry : Entry Nat Nat := ⟨7, 70, .second, 0, some ⟨1000000000, by decide⟩⟩
    last.clock.now.ns = 2000000000 ∧ last.Tends 0 entry ∧ last.Has 0 entry ∧
      ∀ serving ∈ renewing.servingsOfCalls (renewing.listing 1) (renewing.consultation 1) 0
        putAndKeep fresh, serving.Minds 0 entry := by
  intro fresh last entry
  have htends : last.Tends 0 entry := by decide +kernel
  obtain ⟨hlast, hservings⟩ := tended_entries_stay renewing 1 (.byHand false false) false () 0
    putAndKeep 0 entry
  exact ⟨by decide +kernel, htends, hlast htends, hservings⟩

end ExpiringMap
