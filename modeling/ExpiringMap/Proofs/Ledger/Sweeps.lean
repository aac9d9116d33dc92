import ExpiringMap.Proofs.Ledger.Lines
import ExpiringMap.Proofs.Pass.Eviction

/-!
# What passes write in a ledger

A pass that has candidates writes the confirmations of its eviction hook, then every entry that it
takes out, and in the end a summary that counts them: a sweep.  Any other pass writes nothing.  If
the hooks leave the map alone that they are consulted by, a pass takes out what was confirmed and
nothing else (`swept_pass`).
-/

namespace ExpiringMap

variable {n : Nat} {S K V α : Type}

/-- What a pass has written in the ledger when it has come to its summary. -/
structure Sweep (K V : Type) where
  confirmed : List (Confirmation K V)
  evicted : List (Entry K V)
  candidates : Nat

def Sweep.lines (sweep : Sweep K V) : List (Line K V) :=
  sweep.confirmed.map .confirmed ++ sweep.evicted.map (.left · .evicted) ++
    [.summed sweep.evicted.length sweep.candidates]

/-- The confirmation of an entry that its key still has. -/
def Entry.confirmation (entry : Entry K V) : Confirmation K V :=
  ⟨entry.key, entry.value, some entry⟩

/-- Whether a pass has taken out what the eviction hook confirmed, and nothing else. -/
def Sweep.IsExact (sweep : Sweep K V) : Prop :=
  sweep.confirmed = sweep.evicted.map Entry.confirmation

/-! ## Hooks that leave their map alone -/

namespace Deployment

/-- Whether nothing has been done with a map from one deployment to a later one, as far as the
journal tells. -/
def LeavesAlone (map : Fin n) (earlier later : Deployment n S K V) : Prop :=
  ∃ events, later.journal = events ++ earlier.journal ∧ ∀ event, Event.ofMap map event ∉ events

/-- Whether the journal tells when the store of a map has changed. -/
def Records (map : Fin n) (earlier later : Deployment n S K V) : Prop :=
  ∃ events, later.journal = events ++ earlier.journal ∧
    ((∀ event, Event.ofMap map event ∉ events) →
      (later.state map).store = (earlier.state map).store)

theorem LeavesAlone.refl (map : Fin n) (deployment : Deployment n S K V) :
    deployment.LeavesAlone map deployment :=
  ⟨[], rfl, by simp⟩

theorem LeavesAlone.trans {map : Fin n} {first second third : Deployment n S K V}
    (h : first.LeavesAlone map second) (h' : second.LeavesAlone map third) :
    first.LeavesAlone map third := by
  obtain ⟨earlier, hearlier, hnone⟩ := h
  obtain ⟨later, hlater, hnone'⟩ := h'
  refine ⟨later ++ earlier, by rw [hlater, hearlier, List.append_assoc], fun event hevent => ?_⟩
  rcases List.mem_append.mp hevent with hevent | hevent
  · exact hnone' event hevent
  · exact hnone event hevent

theorem Aside.leavesAlone {earlier later : Deployment n S K V} (h : earlier.Aside later)
    (map : Fin n) : earlier.LeavesAlone map later := by
  obtain ⟨events, hjournal, hnone⟩ := h.journal
  exact ⟨events, hjournal, hnone map⟩

theorem Records.store_eq {map : Fin n} {earlier later : Deployment n S K V}
    (h : earlier.Records map later) (halone : earlier.LeavesAlone map later) :
    (later.state map).store = (earlier.state map).store := by
  obtain ⟨events, hjournal, hstore⟩ := h
  obtain ⟨others, hothers, hnone⟩ := halone
  obtain rfl : events = others := List.append_cancel_right (hjournal.symm.trans hothers)
  exact hstore hnone

end Deployment

/-- Whether a hook of a map that is consulted in a step, if one is, leaves the map alone: it makes
no calls there, nor does anything that comes of its calls. -/
def Moment.Refrains (map : Fin n) (moment : Moment n S K V) : Prop :=
  ∀ hook, moment.act = .consult map hook → moment.before.LeavesAlone map moment.after

variable [DecidableEq K]

/-- The journal always tells when a store has changed. -/
theorem stepwise_records (plan : Plan n S K V) (map : Fin n) :
    Stepwise plan (Deployment.Records map) where
  trans := by
    rintro first second third ⟨earlier, hearlier, hfirst⟩ ⟨later, hlater, hsecond⟩
    refine ⟨later ++ earlier, by rw [hlater, hearlier, List.append_assoc], fun hnone => ?_⟩
    have hnone' : ∀ event, Event.ofMap map event ∉ later ∧ Event.ofMap map event ∉ earlier :=
      fun event => by simpa using hnone event
    exact (hsecond fun event => (hnone' event).1).trans (hfirst fun event => (hnone' event).2)
  aside := by
    intro earlier later haside
    obtain ⟨events, hjournal, -⟩ := haside.journal
    exact ⟨events, hjournal, fun _ => by rw [haside.state]⟩
  onMap deployment other act := by
    refine ⟨_, deployment.journal_onMap plan.enumeration other act, fun hnone => ?_⟩
    rw [Deployment.state_onMap]
    split
    · next heq =>
      subst heq
      -- an act that writes nothing has left the store as it was
      refine act.store_eq_of_events fun event hevent _ => ?_
      exact hnone event (by simpa using hevent)
    · rfl

/-! ### Hooks that make no calls -/

/-- Whether the hooks of a policy answer without having made a call, whatever they remember. -/
def Policy.OnlyAnswers (policy : Policy n S K V) : Prop :=
  ∀ hook reaction, policy.reaction? hook = some reaction →
    ∀ memory, ∃ verdict, (reaction hook memory).2 = .answer verdict

omit [DecidableEq K] in
theorem Policy.OnlyAnswers.script_eq {plan : Plan n S K V} {asked : Fin n}
    (h : (plan.settings asked).policy.OnlyAnswers) {hook : Hook K V} {script : Script n S K V}
    {deployment entered : Deployment n S K V}
    (hentered : plan.enter deployment asked hook = (some script, entered)) :
    ∃ verdict, script = .answer verdict := by
  unfold Plan.enter at hentered
  split at hentered
  · cases hentered
  · next reaction hreaction =>
    cases hentered
    exact h hook reaction hreaction deployment.memory

/-- Hooks that make no calls leave every map alone. -/
theorem Plan.leavesAlone_consult {plan : Plan n S K V} {asked : Fin n}
    (hanswers : (plan.settings asked).policy.OnlyAnswers) (depth : Nat) (map : Fin n)
    (hook : Hook K V) (deployment : Deployment n S K V) :
    deployment.LeavesAlone map
      (plan.consult (plan.consultation depth) asked hook deployment).2 := by
  have henter := (deployment.aside_enter plan asked hook).leavesAlone map
  unfold Plan.consult
  rcases hentered : plan.enter deployment asked hook with ⟨_ | script, entered⟩ <;>
    rw [hentered] at henter
  · exact henter
  · -- the script is over at once, so only entering and leaving the hook are to be looked at
    obtain ⟨verdict, rfl⟩ := hanswers.script_eq hentered
    have hran : (plan.consultation depth asked (.answer verdict) entered).2 = entered := by
      cases depth <;> rfl
    refine henter.trans ?_
    show entered.LeavesAlone map
      ((plan.consultation depth asked (.answer verdict) entered).2.leave asked hook _)
    rw [hran]
    exact (entered.aside_leave asked hook _).leavesAlone map

section OnlyAnswers

variable {plan : Plan n S K V} (depth : Nat) (map : Fin n)

/-- No request is served for hooks that make no calls. -/
theorem servingsOfHook_eq_nil (hanswers : ∀ asked, (plan.settings asked).policy.OnlyAnswers)
    (asked : Fin n) (hook : Hook K V) (deployment : Deployment n S K V) :
    plan.servingsOfHook (plan.listing depth) asked hook deployment = [] := by
  unfold Plan.servingsOfHook
  rcases hentered : plan.enter deployment asked hook with ⟨_ | script, entered⟩
  · rfl
  · obtain ⟨verdict, rfl⟩ := (hanswers asked).script_eq hentered
    cases depth <;> rfl

theorem refrains_request (hanswers : ∀ asked, (plan.settings asked).policy.OnlyAnswers)
    (asked : Fin n) (request : Request K V) (deployment : Deployment n S K V) :
    ∀ serving ∈ plan.servingsOfRequest (plan.listing depth) (plan.consultation depth) asked request
      deployment, ∀ moment ∈ serving.moments, moment.Refrains map := by
  intro serving hserving moment hmoment hook hact
  -- no step has a serving within it, so the request is the only one that is served
  have hnone : ∀ moments, plan.servingsAmong (plan.listing depth) moments = [] := fun moments =>
    List.flatMap_eq_nil_iff.mpr fun moment _ => by
      obtain ⟨act | ⟨other, hook⟩, answer, before, after⟩ := moment
      · rfl
      · exact servingsOfHook_eq_nil depth hanswers other hook before
  rw [Plan.servingsOfRequest, hnone, List.nil_append, List.mem_singleton] at hserving
  subst hserving
  have hrespond := Program.respond_of_mem_trace _ hmoment
  obtain ⟨step, answer, before, after⟩ := moment
  obtain rfl : step = .consult map hook := hact
  obtain rfl : (plan.consult (plan.consultation depth) map hook before).2 = after :=
    congrArg Prod.snd hrespond
  exact Plan.leavesAlone_consult (hanswers map) depth map hook before

mutual

theorem refrains_call (hanswers : ∀ asked, (plan.settings asked).policy.OnlyAnswers)
    (standing : Fin n) :
    ∀ (call : Call n K V) (deployment : Deployment n S K V),
      ∀ serving ∈ plan.servingsOfCall (plan.listing depth) (plan.consultation depth) standing call
        deployment, ∀ moment ∈ serving.moments, moment.Refrains map
  | .ask path request, deployment =>
      refrains_request depth map hanswers (path.last standing) request deployment
  | .together path groups, deployment =>
      refrains_groups hanswers (path.last standing) groups deployment
termination_by structural call => call

/-- Where hooks make no calls, no hook of a map has anything done with it. -/
theorem refrains_calls (hanswers : ∀ asked, (plan.settings asked).policy.OnlyAnswers)
    (standing : Fin n) :
    ∀ (calls : List (Call n K V)) (deployment : Deployment n S K V),
      ∀ serving ∈ plan.servingsOfCalls (plan.listing depth) (plan.consultation depth) standing calls
        deployment, ∀ moment ∈ serving.moments, moment.Refrains map
  | [], _ => by simp [Plan.servingsOfCalls]
  | call :: rest, deployment =>
      List.forall_mem_append.mpr ⟨refrains_call hanswers standing call deployment,
        refrains_calls hanswers standing rest _⟩
termination_by structural calls => calls

theorem refrains_groups (hanswers : ∀ asked, (plan.settings asked).policy.OnlyAnswers)
    (standing : Fin n) :
    ∀ (groups : List (List (Call n K V))) (deployment : Deployment n S K V),
      ∀ serving ∈ plan.servingsOfGroups (plan.listing depth) (plan.consultation depth) standing
        groups deployment, ∀ moment ∈ serving.moments, moment.Refrains map
  | [], _ => by simp [Plan.servingsOfGroups]
  | calls :: rest, deployment =>
      List.forall_mem_append.mpr ⟨refrains_calls hanswers standing calls deployment,
        refrains_groups hanswers standing rest _⟩
termination_by structural groups => groups

end

end OnlyAnswers

/-! ## Steps that write nothing -/

/-- Whether an act lets no entry come or go. -/
def MapAct.MovesNothing : MapAct K V → Prop
  | insert .. | insertIfAbsent .. | remove .. | removeIfSame .. | clear => False
  | _ => True

/-- Whether a step writes nothing in the ledger of a map. -/
def Step.IsSilent (map : Fin n) : Step n K V → Prop
  | .act (.map other done) => other = map → done.MovesNothing
  | .act (.log other (.passSummary _ _)) => other ≠ map
  | .consult other (.eviction _ _) => other ≠ map
  | _ => True

theorem MapAct.MovesNothing.lines_eq_nil {act : MapAct K V} (h : act.MovesNothing)
    (state : MapState K V) : (act.events state).filterMap MapEvent.line? = [] := by
  cases act with
  | insert | insertIfAbsent | remove | removeIfSame | clear => exact h.elim
  | read key now =>
      simp only [events]
      split <;> rfl
  | shift call source target =>
      simp only [events]
      split <;> rfl
  | lock | unlock | reserve | scan | size | readPhase | setPhase | keepJob | takeJob | borrow | hold
  | letGo | addHandle | takeHandle => rfl

theorem Step.IsSilent.lines_eq_nil {map : Fin n} {moment : Moment n S K V}
    (h : moment.act.IsSilent map) : moment.lines map = [] := by
  obtain ⟨act | ⟨other, hook⟩, answer, before, after⟩ := moment
  · cases act with
    | map other act =>
        -- an act on a map is silent if it moves nothing in this one
        simp only [Moment.lines]
        split
        · next heq => exact MapAct.MovesNothing.lines_eq_nil (h heq) _
        · rfl
    | log other record =>
        simp only [Moment.lines]
        split
        · next heq =>
          cases record with
          | passSummary => exact absurd heq h
          | _ => rfl
        · rfl
    | clock | scheduler | sleep => rfl
  · cases hook with
    | screening entry => rfl
    | eviction key value =>
        rcases answer with panic | _ | _
        · rfl
        · rfl
        · exact if_neg h

theorem ledger_eq_nil {map : Fin n} {moments : List (Moment n S K V)}
    (h : ∀ moment ∈ moments, moment.act.IsSilent map) : ledger map moments = [] :=
  List.flatMap_eq_nil_iff.mpr fun moment hmoment => (h moment hmoment).lines_eq_nil

/-- The key and value of which an eviction hook of a map has said yes, if it has. -/
def confirmed? (map : Fin n) : Fin n × Hook K V × Outcome Bool → Option (K × V)
  | (other, .eviction key value, .ok true) => if other = map then some (key, value) else none
  | _ => none

theorem lines_consult (map other : Fin n) (hook : Hook K V) (verdict : Outcome Bool)
    (before after : Deployment n S K V) :
    Moment.lines map ⟨.consult other hook, verdict, before, after⟩ =
      ((confirmed? map (other, hook, verdict)).map fun (key, value) =>
        Line.confirmed ⟨key, value, (before.state map).store.lookup key⟩).toList := by
  cases hook with
  | screening entry => rfl
  | eviction key value =>
      rcases verdict with panic | _ | _
      · rfl
      · rfl
      · simp only [Moment.lines, confirmed?]
        split <;> rfl

/-- Steps that are silent but for consultations write what has been confirmed in them. -/
theorem exists_ledger_eq_confirmed {map : Fin n} {moments : List (Moment n S K V)}
    (h : ∀ moment ∈ moments, moment.act.IsAct → moment.act.IsSilent map) :
    ∃ confirmed : List (Confirmation K V), ledger map moments = confirmed.map .confirmed ∧
      (confirmed.map fun confirmation => (confirmation.key, confirmation.value)) =
        (consultations moments).filterMap (confirmed? map) ∧
      ∀ store : Store K V, (∀ moment ∈ moments, (moment.before.state map).store = store) →
        ∀ confirmation ∈ confirmed, confirmation.present = store.lookup confirmation.key := by
  -- from the last moment to the first, the store being the same all along
  induction moments with
  | nil => exact ⟨[], rfl, rfl, by simp⟩
  | cons moment rest ih =>
      obtain ⟨hmoment, hrest⟩ := List.forall_mem_cons.mp h
      obtain ⟨confirmed, hledger, hsaid, hpresent⟩ := ih hrest
      obtain ⟨act | ⟨other, hook⟩, answer, before, after⟩ := moment
      · have hsilent := (hmoment trivial).lines_eq_nil
        refine ⟨confirmed, by rw [ledger_cons, hsilent, hledger, List.nil_append], hsaid, ?_⟩
        exact fun store hstore => hpresent store (List.forall_mem_cons.mp hstore).2
      · rw [ledger_cons, lines_consult, consultations_consult, List.filterMap_cons, hledger]
        cases confirmed? map (other, hook, answer) with
        | none =>
            refine ⟨confirmed, rfl, hsaid, ?_⟩
            exact fun store hstore => hpresent store (List.forall_mem_cons.mp hstore).2
        -- a confirmation is written down with the entry that is there when it is given
        | some said =>
            refine ⟨⟨said.1, said.2, (before.state map).store.lookup said.1⟩ :: confirmed, rfl,
              congrArg (said :: ·) hsaid, fun store hstore => ?_⟩
            obtain ⟨hbefore, hlater⟩ := List.forall_mem_cons.mp hstore
            exact List.forall_mem_cons.mpr ⟨by rw [← hbefore], hpresent store hlater⟩

omit [DecidableEq K] in
theorem confirmed?_screenings (map : Fin n) (screened : List (Entry K V × Outcome Bool)) :
    (Operation.screenings map screened).filterMap (confirmed? map) = [] := by
  refine List.filterMap_eq_nil_iff.mpr fun consulted hconsulted => ?_
  obtain ⟨pair, -, rfl⟩ := List.mem_map.mp hconsulted
  rfl

omit [DecidableEq K] in
theorem confirmed?_notifications (map : Fin n) (notified : List (Entry K V × Outcome Bool)) :
    (Operation.notifications map notified).filterMap (confirmed? map) =
      (Operation.agreed notified).map fun entry => (entry.key, entry.value) := by
  induction notified with
  | nil => rfl
  | cons pair rest ih =>
      obtain ⟨entry, verdict⟩ := pair
      rw [Operation.notifications_cons, List.filterMap_cons, ih, Operation.agreed_cons]
      rcases verdict with panic | _ | _ <;> simp [confirmed?, Outcome.isYes]

/-! ## The steps of a pass -/

omit [DecidableEq K] in
theorem Step.Asks.isSilent {map other : Fin n} {step : Step n K V} (h : step.Asks map)
    (hne : other ≠ map) : step.IsSilent other := by
  cases step with
  | act act =>
      cases act with
      | log asked record =>
          cases record with
          | passSummary => exact h.elim
          | _ => trivial
      | map | clock | scheduler | sleep => exact h.elim
  | consult asked hook =>
      cases hook with
      | screening entry => trivial
      | eviction key value => exact fun heq => hne (heq.symm.trans h)

omit [DecidableEq K] in
theorem Step.Asks.isSilent_of_isAct {map : Fin n} {step : Step n K V} (h : step.Asks map)
    (hact : step.IsAct) : step.IsSilent map := by
  cases step with
  | act act =>
      cases act with
      | log asked record =>
          cases record with
          | passSummary => exact h.elim
          | _ => trivial
      | map | clock | scheduler | sleep => exact h.elim
  | consult asked hook => exact hact.elim

namespace Operation

open Program

variable (map : Fin n)

omit [DecidableEq K] in
theorem isSilent_search (other : Fin n) :
    (search (K := K) (V := V) map).Every (Step.IsSilent other) := by
  refine (searches_search map).mono fun step hstep => ?_
  rcases hstep with rfl | rfl | ⟨now, rfl⟩ | rfl | ⟨count, rfl⟩ <;>
    first | trivial | exact fun _ => trivial

/-- An entry that is taken out by key and number is in the ledger, and if the entry meant is there,
it is that one. -/
theorem exists_evicted (state : MapState K V) (key : K) (seq : Nat) :
    ∃ gone : Option (Entry K V),
      ((MapAct.removeIfSame key seq).events state).filterMap MapEvent.line? =
          gone.toList.map (.left · .evicted) ∧
        (state.store.removeIfSame key seq).1 = gone.isSome ∧
        ∀ entry ∈ state.store.entries, entry.key = key → entry.seq = seq → gone = some entry := by
  have hthere : ∀ entry ∈ state.store.entries, entry.key = key →
      state.store.lookup key = some entry := fun entry hentry hkey =>
    Store.lookup_eq_some_iff.mpr ⟨hentry, hkey⟩
  -- something goes only if the entry of the key has the number that was asked for
  cases hlookup : state.store.lookup key with
  | none =>
      refine ⟨none, ?_, ?_, fun entry hentry hkey _ => ?_⟩
      · simp [MapAct.events, hlookup]
      · simp [Store.removeIfSame, hlookup]
      · rw [← hlookup, hthere entry hentry hkey]
  | some present =>
      by_cases hseq : present.seq = seq
      · refine ⟨some present, ?_, ?_, fun entry hentry hkey _ => ?_⟩
        · simp [MapAct.events, hlookup, hseq, MapEvent.line?]
        · simp [Store.removeIfSame, hlookup, hseq]
        · rw [← hlookup, hthere entry hentry hkey]
      · refine ⟨none, ?_, ?_, fun entry hentry hkey hsame => ?_⟩
        · simp [MapAct.events, hlookup, hseq]
        · simp [Store.removeIfSame, hlookup, hseq]
        · obtain rfl := Option.some.inj (hlookup.symm.trans (hthere entry hentry hkey))
          exact absurd hsame hseq

/-- What a pass takes out in the end is in its ledger, and if all that it is to take out is there,
it takes out all of it. -/
theorem ledger_removeAll (plan : Plan n S K V) (consultation : Consultation n S K V)
    (entries : List (Entry K V)) (deployment : Deployment n S K V) :
    ∃ evicted : List (Entry K V),
      ledger map ((removeAll map entries).trace (plan.respond consultation) deployment) =
          evicted.map (.left · .evicted) ∧
        ((removeAll map entries).run (plan.respond consultation) deployment).1 = evicted.length ∧
        ((∀ entry ∈ entries, entry ∈ (deployment.state map).store.entries) → entries.Nodup →
          evicted = entries) := by
  induction entries generalizing deployment with
  | nil => exact ⟨[], rfl, rfl, fun _ _ => rfl⟩
  | cons entry rest ih =>
      set removed := deployment.onMap plan.enumeration map (.removeIfSame entry.key entry.seq)
        with hremoved
      obtain ⟨gone, hlines, hgone, hmeant⟩ :=
        exists_evicted (deployment.state map) entry.key entry.seq
      obtain ⟨evicted, hledger, hcount, hall⟩ := ih removed.2
      refine ⟨gone.toList ++ evicted, ?_, ?_, fun hthere hnodup => ?_⟩
      · simp only [removeAll, removeIfSame, onMap, bind_eq, act_bind, done_bind, trace_act,
          trace_bind, Plan.respond, Deployment.perform, ← hremoved, ledger_cons, hledger,
          pure_eq_done, trace_done, List.append_nil, List.map_append]
        simp only [Moment.lines, if_true, hlines]
      · have hfirst : removed.1 = gone.isSome := hgone
        simp only [removeAll, removeIfSame, onMap, bind_eq, act_bind, done_bind, run_act, run_bind,
          Plan.respond, Deployment.perform, ← hremoved, pure_eq_done, run_done, hcount, hfirst]
        cases gone <;> simp
      · obtain ⟨hentry, hrest⟩ := List.forall_mem_cons.mp hthere
        obtain ⟨hnot, hnodup⟩ := List.nodup_cons.mp hnodup
        -- the others are still there, for they have other keys
        have hstill : ∀ other ∈ rest, other ∈ (removed.2.state map).store.entries := by
          intro other hother
          have hne : other.key ≠ entry.key := fun hkey =>
            hnot (Store.eq_of_key_eq (hrest other hother) hentry hkey ▸ hother)
          rw [hremoved, Deployment.state_onMap, if_pos rfl]
          show other ∈ ((deployment.state map).store.removeIfSame entry.key entry.seq).2.entries
          rw [(Store.removeIfSame_eq ..).1, Store.mem_without]
          exact ⟨hrest other hother, by simp [hne]⟩
        rw [hmeant entry hentry rfl rfl, hall hstill hnodup]
        rfl

omit [DecidableEq K] in
theorem isSilent_inquiry :
    (inquiry (K := K) (V := V) map).Every fun step => step.IsAct → step.IsSilent map := by
  refine every_bind ((isSilent_search map map).mono fun _ h _ => h) fun found => ?_
  exact (asks_consultAll map found).mono fun _ h hact => h.isSilent_of_isAct hact

omit [DecidableEq K] in
/-- A pass writes nothing in the ledgers of other maps. -/
theorem isSilent_pass {other : Fin n} (hne : other ≠ map) :
    (pass (K := K) (V := V) map).Every (Step.IsSilent other) := by
  have hmap : ∀ act : MapAct K V, Step.IsSilent other (.act (.map map act)) :=
    fun act heq => absurd heq.symm hne
  refine (steps_pass map).mono fun step hstep => ?_
  rcases hstep with hsearches | hasks | ⟨confirmed, ⟨entry, -, rfl⟩ | rfl | ⟨record, rfl⟩⟩
  · rcases hsearches with rfl | rfl | ⟨now, rfl⟩ | rfl | ⟨count, rfl⟩ <;>
      first | trivial | exact hmap _
  · exact hasks.isSilent hne
  · exact hmap _
  · exact hmap _
  · cases record <;> first | trivial | exact hne.symm

variable {plan : Plan n S K V} {consultation : Consultation n S K V} {map}

/-- The conclusion of a pass writes what it takes out and a summary, unless there were no
candidates. -/
theorem ledger_conclusion (plan : Plan n S K V) (consultation : Consultation n S K V)
    {found : List (Entry K V)}
    {screened notified : List (Entry K V × Outcome Bool)}
    {result : Outcome (List (Entry K V) × List (Entry K V))}
    (hresult : ComesTo found screened notified result) (deployment : Deployment n S K V) :
    let lines := ledger map ((conclusion map result).trace (plan.respond consultation) deployment)
    (notified = [] ∧ lines = []) ∨
      ∃ evicted candidates,
        lines = evicted.map (.left · .evicted) ++ [.summed evicted.length candidates] ∧
          ((∀ entry ∈ agreed notified, entry ∈ (deployment.state map).store.entries) →
            (agreed notified).Nodup → evicted = agreed notified) := by
  have hunlock : ∀ left : Deployment n S K V,
      ledger map ((unlock map).trace (plan.respond consultation) left) = [] := fun left =>
    ledger_eq_nil fun moment hmoment => by
      rw [List.mem_singleton.mp hmoment]
      exact fun _ => trivial
  -- the conclusion after a panic, without candidates, and with some
  rcases result with panic | ⟨_ | ⟨first, others⟩, confirmed⟩
  · exact .inl ⟨hresult.1, by simp [conclusion, hunlock]⟩
  · exact .inl ⟨List.map_eq_nil_iff.mp hresult.2.2.2.1, by simp [conclusion, hunlock]⟩
  · obtain ⟨-, -, -, -, rfl⟩ := hresult
    obtain ⟨evicted, hledger, hcount, hall⟩ :=
      ledger_removeAll map plan consultation (agreed notified) deployment
    refine .inr ⟨evicted, others.length + 1, ?_, hall⟩
    simp [conclusion, hledger, hunlock, log, Moment.lines, LogRecord.line?, hcount]

/-- If the hooks leave their map alone, the store stays as it is up to the last notification. -/
theorem store_inquiry_of_refrains
    (hconsult : ∀ other hook, Keeps (Deployment.Records map) (plan.consult consultation other hook))
    (deployment : Deployment n S K V)
    (h : ∀ moment ∈ (inquiry map).trace (plan.respond consultation) deployment,
      Moment.Refrains map moment) :
    (∀ moment ∈ (inquiry map).trace (plan.respond consultation) deployment,
        (moment.before.state map).store = (deployment.state map).store) ∧
      (((inquiry map).run (plan.respond consultation) deployment).2.state map).store =
        (deployment.state map).store := by
  have hstep : ∀ moment ∈ (inquiry map).trace (plan.respond consultation) deployment,
      (moment.after.state map).store = (moment.before.state map).store := by
    intro moment hmoment
    by_cases hact : moment.act.IsAct
    · exact store_of_leavesStores (leavesStores_inquiry map) hmoment hact map
    -- what else an inquiry does is to consult hooks, and those only of its own map
    have hrefrains := h moment hmoment
    have hrespond := respond_of_mem_trace _ hmoment
    obtain ⟨act | ⟨other, hook⟩, answer, before, after⟩ := moment
    · exact absurd trivial hact
    obtain ⟨_, screened, notified, hconsulted, -⟩ :=
      inquiry_course plan consultation map deployment
    have hmem : (other, hook, answer) ∈ screenings map screened ++ notifications map notified :=
      hconsulted ▸ List.mem_filterMap.mpr ⟨_, hmoment, rfl⟩
    obtain rfl := map_of_mem_consultations hmem
    have hafter : (plan.consult consultation other hook before).2 = after :=
      congrArg Prod.snd hrespond
    have hrecords := hconsult other hook before
    rw [hafter] at hrecords
    exact hrecords.store_eq (hrefrains hook rfl)
  let view (deployment : Deployment n S K V) := (deployment.state map).store
  exact ⟨before_eq_of_trace _ view (inquiry map) hstep, run_eq_of_trace _ view (inquiry map) hstep⟩

end Operation

/-! ## Passes -/

/-- Whether the ledger of some steps is that of sweeps, each of them exact if no hook that is
consulted in these steps has anything done with the map. -/
def Swept (map : Fin n) (moments : List (Moment n S K V)) : Prop :=
  ∃ sweeps : List (Sweep K V), ledger map moments = sweeps.flatMap Sweep.lines ∧
    ((∀ moment ∈ moments, moment.Refrains map) → ∀ sweep ∈ sweeps, sweep.IsExact)

theorem swept_of_ledger_eq_nil {map : Fin n} {moments : List (Moment n S K V)}
    (h : ledger map moments = []) : Swept map moments :=
  ⟨[], h, by simp⟩

theorem Swept.append {map : Fin n} {earlier later : List (Moment n S K V)}
    (h : Swept map earlier) (h' : Swept map later) : Swept map (earlier ++ later) := by
  obtain ⟨sweeps, hledger, hexact⟩ := h
  obtain ⟨others, hledger', hexact'⟩ := h'
  refine ⟨sweeps ++ others, ?_, fun hrefrains sweep hsweep => ?_⟩
  · rw [ledger_append, hledger, hledger', List.flatMap_append]
  · rw [List.forall_mem_append] at hrefrains
    rcases List.mem_append.mp hsweep with hsweep | hsweep
    · exact hexact hrefrains.1 sweep hsweep
    · exact hexact' hrefrains.2 sweep hsweep

namespace Operation

open Program

variable {plan : Plan n S K V} {consultation : Consultation n S K V} {map : Fin n}

omit [DecidableEq K] in
/-- What is confirmed has been found, and nothing of it twice. -/
theorem ComesTo.agreed_found {found : List (Entry K V)}
    {screened notified : List (Entry K V × Outcome Bool)}
    {result : Outcome (List (Entry K V) × List (Entry K V))} {store : Store K V} {now : Instant}
    (h : ComesTo found screened notified result) (hfound : found.Perm (store.expired now))
    (hshort : screened.map Prod.fst <+: found) :
    (∀ entry ∈ agreed notified, entry ∈ store.entries) ∧ (agreed notified).Nodup := by
  refine ⟨fun entry hentry => ?_, ?_⟩
  · exact h.mem_entries hfound hshort
      (List.mem_append_right screened ((mem_agreed ..).mp hentry))
  · have hscreened : (screened.map Prod.fst).Nodup :=
      (hfound.nodup_iff.mpr (store.nodup_expired now)).sublist hshort.sublist
    exact (h.nodup_notified hscreened).sublist (sublist_agreed notified)

/-- Where keys have the entries that were confirmed, their confirmations are of these entries. -/
theorem eq_map_confirmation {store : Store K V} {confirmed : List (Confirmation K V)}
    {entries : List (Entry K V)}
    (hsaid : (confirmed.map fun confirmation => (confirmation.key, confirmation.value)) =
      entries.map fun entry => (entry.key, entry.value))
    (hpresent : ∀ confirmation ∈ confirmed,
      confirmation.present = store.lookup confirmation.key)
    (hthere : ∀ entry ∈ entries, entry ∈ store.entries) :
    confirmed = entries.map Entry.confirmation := by
  -- what is confirmed is told by the key and the value, given the store
  let remember (said : K × V) : Confirmation K V := ⟨said.1, said.2, store.lookup said.1⟩
  calc confirmed
      = confirmed.map fun confirmation => remember (confirmation.key, confirmation.value) := by
        refine (List.map_id _).symm.trans (List.map_congr_left fun confirmation hmem => ?_)
        simp only [remember, ← hpresent confirmation hmem, id_eq]
    _ = (entries.map fun entry => (entry.key, entry.value)).map remember := by
        rw [← hsaid, List.map_map]
        rfl
    _ = entries.map Entry.confirmation := by
        rw [List.map_map]
        refine List.map_congr_left fun entry hentry => ?_
        have hlookup := Store.lookup_eq_some_iff.mpr ⟨hthere entry hentry, rfl⟩
        simp only [Function.comp_apply, remember, hlookup, Entry.confirmation]

/-- A pass writes one sweep, or nothing.  The sweep is exact if the hooks leave the map alone. -/
theorem swept_pass
    (hconsult : ∀ other hook, Keeps (Deployment.Records map) (plan.consult consultation other hook))
    (swept : Fin n) (deployment : Deployment n S K V) :
    Swept map ((pass swept).trace (plan.respond consultation) deployment) := by
  by_cases heq : map = swept
  case neg =>
    refine swept_of_ledger_eq_nil (ledger_eq_nil fun moment hmoment => ?_)
    exact (isSilent_pass swept heq).of_mem_trace hmoment
  subst heq
  obtain ⟨found, screened, notified, hconsulted, -, hfound, hshort, hresult⟩ :=
    inquiry_course plan consultation map deployment
  set inquired := (inquiry map).run (plan.respond consultation) deployment with hinquired
  set asked := (inquiry map).trace (plan.respond consultation) deployment with hasked
  have htrace : (pass map).trace (plan.respond consultation) deployment =
      asked ++ (conclusion map inquired.1).trace (plan.respond consultation) inquired.2 := by
    rw [pass_eq, trace_bind]
  have hsilent : ∀ moment ∈ asked, moment.act.IsAct → moment.act.IsSilent map :=
    fun moment hmoment => (isSilent_inquiry map).of_mem_trace hmoment
  obtain ⟨confirmed, hledger, hsaid, hpresent⟩ := exists_ledger_eq_confirmed hsilent
  rw [hconsulted, List.filterMap_append, confirmed?_screenings, confirmed?_notifications,
    List.nil_append] at hsaid
  rcases ledger_conclusion plan consultation hresult inquired.2 with
    ⟨hnone, hending⟩ | ⟨evicted, candidates, hending, hall⟩
  · -- where nobody was notified, nothing was confirmed
    rw [hnone] at hsaid
    obtain rfl : confirmed = [] := List.map_eq_nil_iff.mp hsaid
    exact swept_of_ledger_eq_nil (by rw [htrace, ledger_append, hledger, hending]; rfl)
  · refine ⟨[⟨confirmed, evicted, candidates⟩], ?_, fun hrefrains sweep hsweep => ?_⟩
    · rw [htrace, ledger_append, hledger, hending]
      simp [Sweep.lines]
    rw [List.mem_singleton.mp hsweep]
    rw [htrace, List.forall_mem_append] at hrefrains
    -- the store that the pass has found is the one from which it takes entries out
    obtain ⟨hbefore, hlast⟩ := store_inquiry_of_refrains hconsult deployment hrefrains.1
    obtain ⟨hthere, hnodup⟩ := hresult.agreed_found hfound hshort
    obtain rfl : evicted = agreed notified := hall (by rwa [hlast]) hnodup
    exact eq_map_confirmation hsaid (hpresent _ hbefore) hthere

end Operation

end ExpiringMap
