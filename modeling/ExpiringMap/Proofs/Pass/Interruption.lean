import ExpiringMap.Proofs.Locking.Nesting
import ExpiringMap.Proofs.Pass.Course

/-!
# Passes that a screening ends

If the screening hook panics at an entry, that is the last thing that a pass does but for giving the
lock back (`pass_interrupted`).  It has told the eviction hook of nothing and has taken nothing out,
so whatever has changed since it began has been changed by what the hooks have done themselves, in
their own calls.  It does not matter how many entries the hook has been shown before, what it has
done meanwhile, or where the panic comes from.
-/

namespace ExpiringMap

variable {n : Nat} {S K V : Type}

/-! ## Steps that leave the state of a map alone -/

/-- Whether two states of a map differ in nothing but how often its lock is held and how often its
store has been scanned. -/
def MapState.SameBesides (earlier later : MapState K V) : Prop :=
  later = { earlier with guards := later.guards, scans := later.scans }

/-- Whether a step, if it is an act on a map, does no more than to take its lock or to give it back,
or to count or list its entries. -/
def Step.OnlyLooks : Step n K V → Prop
  | .act (.map _ done) =>
      match done with
      | .lock | .unlock | .size | .scan _ => True
      | _ => False
  | _ => True

theorem Step.Searches.onlyLooks {map : Fin n} {step : Step n K V} (h : step.Searches map) :
    step.OnlyLooks := by
  rcases h with rfl | rfl | ⟨now, rfl⟩ | rfl | ⟨count, rfl⟩ <;> trivial

theorem Step.Asks.onlyLooks {map : Fin n} {step : Step n K V} (h : step.Asks map) :
    step.OnlyLooks := by
  cases step with
  | act act =>
      cases act with
      | log other record => trivial
      | map | clock | scheduler | sleep => exact h.elim
  | consult other hook => trivial

namespace Operation

open Program

variable [DecidableEq K]

/-- Steps that only look leave the states of all maps as they are, unless a hook is consulted. -/
theorem sameBesides_of_onlyLooks {plan : Plan n S K V} {consultation : Consultation n S K V}
    {moment : Moment n S K V} (hmoment : plan.respond consultation moment.act moment.before =
      (moment.answer, moment.after))
    (hlooks : moment.act.OnlyLooks) (hact : moment.act.IsAct) (map : Fin n) :
    (moment.before.state map).SameBesides (moment.after.state map) := by
  obtain ⟨act | ⟨other, hook⟩, answer, before, after⟩ := moment
  · obtain rfl : (before.perform plan.enumeration act).2 = after := congrArg Prod.snd hmoment
    rcases before.aside_perform plan.enumeration act with haside | ⟨other, done, rfl⟩
    · rw [haside.state map]
      rfl
    · show (before.state map).SameBesides
        ((before.onMap plan.enumeration other done).2.state map)
      rw [Deployment.state_onMap]
      -- what only looks leaves everything in the map but how often it has been scanned
      split
      · next heq =>
        rw [heq]
        cases done <;> first | exact hlooks.elim | rfl
      · rfl
  · exact hact.elim

/-! ## Where a screening ends -/

/-- A screening lets all entries pass by, or ends at one of them, with the panic of the hook. -/
theorem screen_cases (plan : Plan n S K V) (consultation : Consultation n S K V) (map : Fin n)
    (entries : List (Entry K V)) (deployment : Deployment n S K V) :
    let run := (screen map entries).run (plan.respond consultation) deployment
    let moments := (screen map entries).trace (plan.respond consultation) deployment
    ((∃ accepted, run.1 = .ok accepted) ∧
        ∀ asked ∈ consultations moments, asked.2.2.isOk = true) ∨
      ∃ entry panic earlier before, entry ∈ entries ∧ run.1 = .error panic ∧
        moments = earlier ++ [⟨.consult map (.screening entry), .error panic, before, run.2⟩] ∧
        ∀ asked ∈ consultations earlier, asked.2.2.isOk = true := by
  induction entries generalizing deployment with
  | nil => exact .inl ⟨⟨[], rfl⟩, by simp [screen]⟩
  | cons entry rest ih =>
      simp only [screen, bind_eq, consult, act_bind, done_bind, trace_act, run_act]
      generalize hasked : plan.respond consultation (.consult map (.screening entry)) deployment =
        asked
      obtain ⟨verdict, after⟩ := asked
      cases verdict with
      | error panic =>
          -- this one panics, and nothing comes before it
          exact .inr ⟨entry, panic, [], deployment, List.mem_cons_self .., rfl, rfl, by simp⟩
      | ok valid =>
          simp only [run_bind, trace_bind]
          let shown : Moment n S K V :=
            ⟨.consult map (.screening entry), Except.ok valid, deployment, after⟩
          -- this one is answered, so whatever comes of the rest comes of all
          rcases ih after with ⟨⟨accepted, haccepted⟩, hok⟩ |
            ⟨other, panic, earlier, before, hother, hpanic, hmoments, hok⟩
          · refine .inl ⟨⟨_, by simp only [haccepted]; rfl⟩, ?_⟩
            simp only [haccepted, pure_eq_done, trace_done, List.append_nil]
            exact List.forall_mem_cons.mpr ⟨rfl, hok⟩
          · refine .inr ⟨other, panic, shown :: earlier, before, List.mem_cons_of_mem _ hother,
              by simp only [hpanic]; rfl, ?_, List.forall_mem_cons.mpr ⟨rfl, hok⟩⟩
            simp [hpanic, hmoments, shown]

theorem records_screen (plan : Plan n S K V) (consultation : Consultation n S K V) (map : Fin n)
    (entries : List (Entry K V)) (deployment : Deployment n S K V) :
    records ((screen map entries).trace (plan.respond consultation) deployment) = [] := by
  refine List.filterMap_eq_nil_iff.mpr fun moment hmoment => ?_
  obtain ⟨entry, hact⟩ := (shows_screen map entries).of_mem_trace hmoment
  obtain ⟨step, answer, before, after⟩ := moment
  cases hact
  rfl

/-- A search writes how many entries there are. -/
theorem records_search (plan : Plan n S K V) (consultation : Consultation n S K V) (map : Fin n)
    (deployment : Deployment n S K V) :
    records ((search map).trace (plan.respond consultation) deployment) =
      [(map, .entryCount (deployment.state map).store.size)] := by
  by_cases hempty : (deployment.state map).store.size = 0 <;>
    simp [search, lock, size, log, now, scan, onMap, onClock, Plan.respond, Deployment.perform,
      MapAct.answer, MapAct.apply, hempty]

/-! ## Where a pass ends -/

/-- What a pass does that the screening of an entry ends with a panic. -/
structure Interrupted (map : Fin n) (entry : Entry K V) (panic : Panic)
    (found left : Deployment n S K V) (moments : List (Moment n S K V)) : Prop where
  /-- The entry had expired when the pass began. -/
  expired : entry ∈ (found.state map).store.expired (found.onClock .read).1
  /-- The eviction hook is told of nothing. -/
  silent : ∀ asked ∈ consultations moments, ∃ shown verdict,
    asked = (map, .screening shown, verdict)
  /-- What changes in a map beside its lock is changed within the consultation of a hook. -/
  quiet : ∀ moment ∈ moments, moment.act.IsAct → ∀ other,
    (moment.before.state other).SameBesides (moment.after.state other)
  /-- The panic is what the last consultation has come to, and maps are left as they were then. -/
  ending : ∃ earlier before asked,
    moments = earlier ++ [⟨.consult map (.screening entry), .error panic, before, asked⟩,
      ⟨.act (.map map .unlock), (), asked, left⟩] ∧
    (∀ shown ∈ consultations earlier, shown.2.2.isOk = true) ∧
    ∀ other, (asked.state other).SameBesides (left.state other)
  /-- All that the pass writes is how many entries there were when it began. -/
  records : records moments = [(map, .entryCount (found.state map).store.size)]
  /-- Every lock is held as often as before. -/
  guards : ∀ other, (left.state other).guards = (found.state other).guards

section Interrupted

variable {plan : Plan n S K V} {depth : Nat} {map : Fin n} {entry : Entry K V} {panic : Panic}
  {found : Deployment n S K V}

theorem guards_pass (plan : Plan n S K V) (depth : Nat) (map : Fin n)
    (found : Deployment n S K V) (other : Fin n) :
    ((plan.run depth (pass map) found).2.state other).guards = (found.state other).guards :=
  ((composes_nests (nests_consult fun map held hheld script deployment =>
    nests_consultation plan depth map held hheld script deployment)).pass map [] found).guards other

omit [DecidableEq K] in
/-- Up to its last notification a pass itself only looks. -/
theorem onlyLooks_inquiry (map : Fin n) :
    (inquiry (K := K) (V := V) map).Every Step.OnlyLooks :=
  every_bind ((searches_search map).mono fun _ h => h.onlyLooks) fun found =>
    (asks_consultAll map found).mono fun _ h => h.onlyLooks

/-- Either no screening of a pass panics, or the inquiry ends with the first one that does.  Then
nothing but the number of entries has been written. -/
theorem inquiry_cases (plan : Plan n S K V) (consultation : Consultation n S K V)
    (map : Fin n) (deployment : Deployment n S K V) :
    let run := (inquiry map).run (plan.respond consultation) deployment
    let moments := (inquiry map).trace (plan.respond consultation) deployment
    (∀ asked ∈ consultations moments, ∀ entry panic,
        asked ≠ (map, .screening entry, .error panic)) ∨
      ∃ entry panic earlier before, run.1 = .error panic ∧
        moments = earlier ++ [⟨.consult map (.screening entry), .error panic, before, run.2⟩] ∧
        (∀ asked ∈ consultations earlier, asked.2.2.isOk = true) ∧
        records moments = [(map, .entryCount (deployment.state map).store.size)] := by
  set searched := (search map).run (plan.respond consultation) deployment with hsearched
  obtain ⟨hsilent, -, -⟩ := search_course plan consultation map deployment
  simp only [inquiry, consultAll, bind_eq, run_bind, trace_bind, ← hsearched]
  rcases screen_cases plan consultation map searched.1 searched.2 with
    ⟨⟨accepted, haccepted⟩, hok⟩ | ⟨entry, panic, earlier, before, -, hpanic, hmoments, hok⟩
  · -- no screening panics, so the only consultations with an error are notifications
    refine .inl ?_
    simp only [haccepted, pure_eq_done, trace_bind, trace_done, List.append_nil,
      consultations_append, hsilent, List.nil_append]
    obtain ⟨notified, -, hnotified, -⟩ := notifyAll_course plan consultation map
      (Entry.inOrder accepted)
      ((screen map searched.1).run (plan.respond consultation) searched.2).2
    rw [hnotified]
    rintro asked hasked entry panic rfl
    rcases List.mem_append.mp hasked with hasked | hasked
    · exact absurd (hok _ hasked) Bool.false_ne_true
    · obtain ⟨pair, -, heq⟩ := List.mem_map.mp hasked
      simp at heq
  · -- a screening panics, and it is the last thing that happens
    refine .inr ⟨entry, panic, (search map).trace (plan.respond consultation) deployment ++ earlier,
      before, by simp only [hpanic]; rfl, ?_, ?_, ?_⟩
    · simp only [hpanic, hmoments]
      simp
    · simpa [hsilent] using hok
    · simp only [hpanic, pure_eq_done, trace_done, List.append_nil, records_append,
        records_search, records_screen]

/-- If a screening panics, the pass ends with it: it has told the eviction hook of nothing and
changed nothing itself. -/
theorem pass_interrupted
    (h : (map, .screening entry, .error panic) ∈ consultations
      ((pass map).trace (plan.respond (plan.consultation depth)) found)) :
    (plan.run depth (pass map) found).1 = .error panic ∧
      Interrupted map entry panic found (plan.run depth (pass map) found).2
        ((pass map).trace (plan.respond (plan.consultation depth)) found) := by
  obtain ⟨listed, screened, notified, hconsulted, -, hlisted, hshort, hresult⟩ :=
    inquiry_course plan (plan.consultation depth) map found
  rcases inquiry_cases plan (plan.consultation depth) map found with
    hnone | ⟨entry', panic', earlier, before, hpanic, hmoments, hok, hrecords⟩
  · rw [consultations_pass] at h
    exact absurd rfl (hnone _ h entry panic)
  -- only the last consultation has come to a panic, so it is the one that there is
  obtain ⟨rfl, rfl⟩ : entry = entry' ∧ panic = panic' := by
    rw [consultations_pass, hmoments, consultations_append] at h
    rcases List.mem_append.mp h with h | h
    · exact absurd (hok _ h) Bool.false_ne_true
    · simpa using h
  set inquired := (inquiry map).run (plan.respond (plan.consultation depth)) found with hinquired
  have hrun : plan.run depth (pass map) found =
      (.error panic, (inquired.2.onMap plan.enumeration map .unlock).2) := by
    rw [Plan.run, pass_eq, run_bind, ← hinquired, hpanic]
    rfl
  have htrace : (pass map).trace (plan.respond (plan.consultation depth)) found =
      earlier ++ [⟨.consult map (.screening entry), .error panic, before, inquired.2⟩,
        ⟨.act (.map map .unlock), (), inquired.2, (plan.run depth (pass map) found).2⟩] := by
    rw [hrun, pass_eq, trace_bind, hmoments, ← hinquired, hpanic, List.append_assoc]
    rfl
  refine ⟨congrArg Prod.fst hrun, ?_⟩
  have hquiet : ∀ moment ∈ (pass map).trace (plan.respond (plan.consultation depth)) found,
      moment.act.IsAct → ∀ other,
        (moment.before.state other).SameBesides (moment.after.state other) := by
    intro moment hmoment hact other
    refine sameBesides_of_onlyLooks (respond_of_mem_trace _ hmoment) ?_ hact other
    rw [pass_eq, trace_bind, ← hinquired, hpanic] at hmoment
    rcases List.mem_append.mp hmoment with hmoment | hmoment
    · exact (onlyLooks_inquiry map).of_mem_trace hmoment
    · rw [List.mem_singleton.mp hmoment]
      trivial
  rw [hpanic] at hresult
  obtain ⟨rfl, -⟩ := hresult
  rw [consultations_pass, hconsulted, notifications_nil, List.append_nil] at h
  obtain ⟨pair, hpair, heq⟩ := List.mem_map.mp h
  constructor
  case expired =>
    obtain ⟨rfl, -⟩ : pair.1 = entry ∧ pair.2 = .error panic := by simpa using heq
    exact hlisted.mem_iff.mp (hshort.subset (List.mem_map_of_mem hpair))
  case silent =>
    rw [consultations_pass, hconsulted, notifications_nil, List.append_nil]
    intro asked hasked
    obtain ⟨shown, -, rfl⟩ := List.mem_map.mp hasked
    exact ⟨shown.1, shown.2, rfl⟩
  case quiet => exact hquiet
  case ending =>
    refine ⟨earlier, before, inquired.2, htrace, hok, ?_⟩
    refine hquiet ⟨.act (.map map .unlock), (), inquired.2, _⟩ ?_ trivial
    rw [htrace]
    simp
  case records =>
    rw [pass_eq, trace_bind, records_append, hrecords, ← hinquired, hpanic]
    rfl
  case guards => exact guards_pass plan depth map found

end Interrupted

end Operation

end ExpiringMap
