import ExpiringMap.Proofs.Countdown
import ExpiringMap.Proofs.Pass.Eviction

/-!
# Entries that are read while a pass is under way

A pass decides on what is evicted by what it found when it read the clock.  An entry that a hook
reads in the meantime starts its countdown again but keeps its number, so if it is confirmed, the
pass takes it out although it has not expired any more (`pass_evicts_touched`).  That is the only
way for this to happen: whatever a pass takes out has been found expired by it, and is still as it
was found unless it has been read since (`pass_evicts_found`).
-/

namespace ExpiringMap

variable {n : Nat} {S K V : Type}

/-- Whether a step, if it evicts anything, does so under the key and number of one of these
entries. -/
def Step.EvictsAmong (entries : List (Entry K V)) : Step n K V → Prop
  | .act (.map _ (.removeIfSame key seq)) => (key, seq) ∈ Operation.tags entries
  | _ => True

theorem Step.Tells.evictsAmong {step : Step n K V} (h : step.Tells) (entries : List (Entry K V)) :
    step.EvictsAmong entries := by
  cases step with
  | act act =>
      cases act with
      | map map done => exact h.elim
      | clock | scheduler | log | sleep => trivial
  | consult map hook => trivial

namespace Operation

open Program

variable [DecidableEq K] (map : Fin n)

omit [DecidableEq K] in
/-- Up to its last notification a pass takes nothing out. -/
theorem evictsAmong_inquiry :
    (inquiry (K := K) (V := V) map).Every (Step.EvictsAmong []) := by
  refine every_bind ((searches_search map).mono fun step hstep => ?_) fun found => ?_
  · rcases hstep with rfl | rfl | ⟨now, rfl⟩ | rfl | ⟨count, rfl⟩ <;> trivial
  · exact (tells_consultAll map found).mono fun _ h => h.evictsAmong []

omit [DecidableEq K] in
/-- After its last notification a pass takes nothing out but what has been confirmed. -/
theorem evictsAmong_conclusion {found : List (Entry K V)}
    {screened notified : List (Entry K V × Outcome Bool)}
    {result : Outcome (List (Entry K V) × List (Entry K V))}
    (hresult : ComesTo found screened notified result) :
    (conclusion map result).Every (Step.EvictsAmong (agreed notified)) := by
  refine (concludes_conclusion map result).mono fun step hstep => ?_
  rcases hstep with ⟨entry, hentry, rfl⟩ | rfl | ⟨record, rfl⟩
  · exact List.mem_map.mpr ⟨entry, hresult.confirmedBy_subset hentry, rfl⟩
  · trivial
  · trivial

/-! ## An entry that its eviction hook reads -/

/-- One map whose eviction hook reads the entry that it is told of before it says yes. -/
def rereading : Plan 1 Unit Nat Nat where
  settings _ :=
    { policy := .listener fun hook memory =>
        match hook with
        | .screening _ => (memory, .answer (.ok true))
        | .eviction key _ => (memory, .ofCalls (.ok true) [.ask [] (.map (.get key))]) }
  enumeration _ := .asStored

/-- The deployment of that map after an entry has been put in that has expired since. -/
def lapsed : Deployment 1 Unit Nat Nat :=
  let only : Fin 1 := ⟨0, Nat.zero_lt_one⟩
  let filled := (rereading.run 0 (rereading.operation only (.map (.put 7 70 .second)))
    (.fresh (.byHand false false) false ())).2
  (rereading.run 0 (rereading.operation only (.advance 1000000001)) filled).2

theorem reachable_lapsed : rereading.Reachable lapsed :=
  ((Plan.Reachable.fresh _ _ _).run 0 0 _).run 0 0 _

/-- The steps of a pass over that entry. -/
def passOverLapsed : List (Moment 1 Unit Nat Nat) :=
  let only : Fin 1 := ⟨0, Nat.zero_lt_one⟩
  (pass only).trace (rereading.respond (rereading.consultation 1)) lapsed

/-- A pass whose only candidate is read by its eviction hook, with the clock standing still, takes
that entry out although it has not expired any more when it is taken out. -/
theorem pass_evicts_touched :
    rereading.Reachable lapsed ∧
      ∃ moment ∈ passOverLapsed, ∃ entry now, readings passOverLapsed = [now] ∧
        moment.act = .act (.map 0 (.removeIfSame 7 0)) ∧
        (moment.before.state 0).store.lookup 7 = some entry ∧ entry.seq = 0 ∧
        entry.isExpired now = false ∧ (moment.after.state 0).store.lookup 7 = none := by
  refine ⟨reachable_lapsed, passOverLapsed[8], List.getElem_mem (by decide), ?_⟩
  exact ⟨_, _, rfl, rfl, rfl, rfl, rfl, rfl⟩

/-! ## Every entry that a pass takes out -/

variable {plan : Plan n S K V} {deployment : Deployment n S K V}

/-- What a pass takes out is an entry that it has found expired when it read the clock, and it is
still as it was found unless it has been read in the meantime. -/
theorem pass_evicts_found (hreachable : plan.Reachable deployment) (depth : Nat) (map : Fin n) :
    let moments := (pass map).trace (plan.respond (plan.consultation depth)) deployment
    ∀ moment ∈ moments, ∀ key seq, moment.act = .act (.map map (.removeIfSame key seq)) →
      ∀ entry, (moment.before.state map).store.lookup key = some entry → entry.seq = seq →
        ∃ now found events, readings moments = [now] ∧
          found ∈ (deployment.state map).store.entries ∧ found.isExpired now = true ∧
          entry.Stems found ∧ moment.before.journal = events ++ deployment.journal ∧
          (entry = found ∨
            ∃ instant, .ofMap map (.touched entry instant) ∈ events ∧
              entry = found.touch instant) := by
  intro moments moment hmoment key seq hact entry hlookup hseq
  obtain ⟨listed, screened, notified, -, hreadings, hlisted, hshort, hresult⟩ :=
    inquiry_course plan (plan.consultation depth) map deployment
  -- the step belongs to the conclusion, which removes what has been confirmed
  have htag : (key, seq) ∈ tags (agreed notified) := by
    have htrace := hmoment
    simp only [moments, pass_eq, trace_bind] at htrace
    rcases List.mem_append.mp htrace with hinquiry | hconclusion
    · have hnone := (evictsAmong_inquiry map).of_mem_trace hinquiry
      rw [hact] at hnone
      exact absurd hnone (by simp [Step.EvictsAmong, tags])
    · have hsome := (evictsAmong_conclusion map hresult).of_mem_trace hconclusion
      rwa [hact] at hsome
  obtain ⟨found, hconfirmed, heq⟩ := List.mem_map.mp htag
  obtain ⟨rfl, rfl⟩ := Prod.mk.inj heq
  have hnotified := List.mem_append_right screened ((mem_agreed ..).mp hconfirmed)
  have hexpired : found ∈ (deployment.state map).store.expired (deployment.onClock .read).1 :=
    hlisted.mem_iff.mp (hshort.subset (hresult.mem_fst_screened hnotified))
  obtain ⟨hfound, hpassed⟩ := List.mem_filter.mp hexpired
  have hread : readings moments = [(deployment.onClock .read).1] := by
    have hentries : ¬ (deployment.state map).store.isEmpty := fun hempty =>
      List.ne_nil_of_mem hfound (List.isEmpty_iff.mp hempty)
    show readings ((pass map).trace _ _) = _
    rw [readings_pass, hreadings, if_neg hentries]
  have hdates : deployment.Dates moment.before :=
    ((stepwise_dates plan).maintains depth (pass map)).before (stepwise_dates plan).refl hmoment
  have hlasting := lasting_proceeds plan
  have hproceeds : deployment.Proceeds moment.before :=
    ((composes_proceeds (hlasting.consult (hlasting.keeps_consultation depth))).pass map).before
      .refl hmoment
  obtain ⟨hstems, events, hjournal, hcases⟩ := Deployment.eq_or_touched hdates hproceeds
    hreachable.numbered hfound (Store.mem_of_lookup hlookup) hseq
  exact ⟨_, found, events, hread, hfound, hpassed, hstems, hjournal, hcases⟩

/-- The entry that its eviction hook reads has not expired any more when it is taken out, and it is
what the pass had found but for the countdown that the hook has started. -/
theorem pass_evicts_found_rereading :
    let now : Instant := ⟨1000000001, by decide⟩
    let entry : Entry Nat Nat := ⟨7, 70, .second, 0, some ⟨2000000001, by decide⟩⟩
    readings passOverLapsed = [now] ∧ entry.isExpired now = false ∧
      ∃ moment ∈ passOverLapsed, moment.act = .act (.map 0 (.removeIfSame 7 0)) ∧
        (moment.before.state 0).store.lookup 7 = some entry ∧
        ∃ found events instant, found ∈ (lapsed.state 0).store.entries ∧
          found.isExpired now = true ∧ entry.Stems found ∧
          moment.before.journal = events ++ lapsed.journal ∧
          .ofMap 0 (.touched entry instant) ∈ events ∧ entry = found.touch instant := by
  intro now entry
  have hreadings : readings passOverLapsed = [now] := by decide +kernel
  have hfresh : entry.isExpired now = false := by decide +kernel
  have hmem : passOverLapsed[8] ∈ passOverLapsed := List.getElem_mem (by decide)
  have hlookup : (passOverLapsed[8].before.state 0).store.lookup 7 = some entry := by
    decide +kernel
  obtain ⟨reading, found, events, hread, hfound, hpassed, hstems, hjournal, hcases⟩ :=
    pass_evicts_found reachable_lapsed 1 0 _ hmem 7 0 rfl entry hlookup rfl
  obtain rfl := (List.cons.inj (hread.symm.trans hreadings)).1
  refine ⟨hreadings, hfresh, _, hmem, rfl, hlookup, found, events, ?_⟩
  rcases hcases with heq | ⟨instant, htouched, hentry⟩
  · -- an entry as it was found would have expired
    rw [← heq, hfresh] at hpassed
    cases hpassed
  · exact ⟨instant, hfound, hpassed, hstems, hjournal, htouched, hentry⟩

end Operation

end ExpiringMap
