import ExpiringMap.Proofs.Operation.Access
import ExpiringMap.Proofs.Reference.Dictionary

/-!
# A map answers like a dictionary

As long as its hooks only decide, a map that is used in any way, as often as one likes and
whatever the clock does in between, gives the answers that a dictionary of exact times would give
(`answers_like_dictionary`).  Deadlines that overflow, sequence numbers that nobody gets to see and
the steps of a pass do not show.
-/

namespace ExpiringMap

open Operation Program

variable {n : Nat} {S K V : Type} [DecidableEq K]

def Plan.use (plan : Plan n S K V) (depth : Nat) (map : Fin n) (use : Use K V)
    (deployment : Deployment n S K V) : Outcome (Answer V) × Deployment n S K V :=
  plan.run depth (serveMap (plan.settings map) map use.request) deployment

/-- A use of a map, with what the clock showed and how it ended. -/
structure Turn (K V : Type) where
  use : Use K V
  now : Instant
  outcome : Outcome (Answer V)

/-- A map is used in turns, each begun in the deployment that the one before has left, but for
what others have done in between to anything except the store of the map. -/
inductive Plan.Uses (plan : Plan n S K V) (depth : Nat) (map : Fin n) :
    Deployment n S K V → List (Turn K V) → Deployment n S K V → Prop
  | done (deployment : Deployment n S K V) : Uses plan depth map deployment [] deployment
  | meanwhile {deployment other last : Deployment n S K V} {turns : List (Turn K V)} :
      (other.state map).store = (deployment.state map).store →
      Uses plan depth map other turns last → Uses plan depth map deployment turns last
  | turn {deployment last : Deployment n S K V} {turns : List (Turn K V)} (use : Use K V) :
      (use = .stop → (deployment.state map).phase = .started) →
      Uses plan depth map (plan.use depth map use deployment).2 turns last →
      Uses plan depth map deployment
        (⟨use, (deployment.onClock .read).1, (plan.use depth map use deployment).1⟩ :: turns) last

section Turns

variable {plan : Plan n S K V} {map : Fin n} {deployment : Deployment n S K V}

/-- A map that has been started can be stopped, whatever comes of the cancellation of its job. -/
theorem stop_clears (plan : Plan n S K V) (depth : Nat)
    (hphase : (deployment.state map).phase = .started) :
    (plan.run depth (stop map) deployment).1 = .ok () ∧
      ((plan.run depth (stop map) deployment).2.state map).store.entries = [] := by
  have hrest : ∀ before : Deployment n S K V,
      let left := plan.run depth (do
        guarded map (clear map)
        setPhase map .stopped
        return (.ok () : Except Error Unit)) before
      left.1 = .ok () ∧ (left.2.state map).store.entries = [] := by
    intro before
    simp [guarded, lock, unlock, clear, setPhase, onMap, Plan.run, Plan.respond,
      Deployment.perform, MapAct.apply, Store.clear]
  -- the job of the map, if it has one, is cancelled first
  simp only [stop, shift, takeJob, onMap, Plan.run, bind_eq, act_bind, done_bind, run_act,
    Plan.respond, Deployment.perform, Deployment.fst_onMap, MapAct.answer, Phase.shift, hphase,
    if_true]
  split
  · rw [run_bind]
    exact hrest _
  · exact hrest _

variable {verdicts : Verdicts K V} {dictionary : Dictionary K V}

/-- A single use is answered like the dictionary answers it. -/
theorem use_represents (hdecides : (plan.settings map).policy.Decides verdicts) (depth : Nat)
    (hstore : (deployment.state map).store.Represents dictionary) (use : Use K V)
    (hstop : use = .stop → (deployment.state map).phase = .started) :
    (plan.use (depth + 1) map use deployment).1 = .ok (dictionary.answer use) ∧
      ((plan.use (depth + 1) map use deployment).2.state map).store.Represents
        (dictionary.apply verdicts (deployment.onClock .read).1 use) := by
  have hdone : ∀ {α : Type} (operation : Operation n K V α) (finish : α → Outcome (Answer V)),
      (serveMap (plan.settings map) map use.request = operation.bind fun result =>
        .done (finish result)) →
      plan.use (depth + 1) map use deployment =
        (finish (plan.run (depth + 1) operation deployment).1,
          (plan.run (depth + 1) operation deployment).2) := by
    intro α operation finish heq
    rw [Plan.use, heq, run_bind_done]
  cases use with
  | get key =>
      obtain ⟨hresult, hleft⟩ := run_get plan (depth + 1) map key deployment
      rw [hdone (Operation.get map key) (fun value => .ok (.value value)) rfl, hresult, hleft,
        Store.read, hstore.lookup_map_value]
      exact ⟨rfl, hstore.touch key _⟩
  | put key value timeout =>
      obtain ⟨hresult, hleft⟩ := run_put plan (depth + 1) map key value timeout deployment
      rw [hdone (Operation.put map key value timeout) (fun value => .ok (.value value)) rfl,
        hresult, hleft, Store.insert, hstore.reserve.lookup_map_value]
      exact ⟨rfl, hstore.reserve.place key value timeout _ _⟩
  | putIfAbsent key value timeout =>
      obtain ⟨hresult, hleft⟩ := run_putIfAbsent plan (depth + 1) map key value timeout deployment
      obtain ⟨hvalue, hafter⟩ := hstore.reserve.insertIfAbsent key value timeout
        (deployment.state map).store.next (deployment.onClock .read).1
      rw [hdone (Operation.putIfAbsent map key value timeout) (fun value => .ok (.value value)) rfl,
        hresult, hleft, hvalue]
      exact ⟨rfl, hafter⟩
  | remove key =>
      obtain ⟨hresult, hleft⟩ := run_remove plan (depth + 1) map key deployment
      rw [hdone (Operation.remove map key) (fun value => .ok (.value value)) rfl, hresult, hleft,
        Store.remove, hstore.lookup_map_value]
      exact ⟨rfl, hstore.erase key⟩
  | size =>
      obtain ⟨hresult, hleft⟩ := run_size plan (depth + 1) map deployment
      rw [hdone (Operation.size map) (fun count => .ok (.count count)) rfl, hresult, hleft,
        hstore.size_eq]
      exact ⟨rfl, hstore⟩
  | isEmpty =>
      obtain ⟨hresult, hleft⟩ := run_size plan (depth + 1) map deployment
      rw [hdone (Operation.size map) (fun count => .ok (.truth (decide (count = 0)))) rfl, hresult,
        hleft]
      exact ⟨congrArg _ (congrArg _ (decide_eq_decide.mpr hstore.size_eq_zero_iff)), hstore⟩
  | purge =>
      -- the pass is one filter, and the dictionary has the same one
      obtain ⟨hresult, hleft⟩ := pass_decided hdecides depth deployment
      rw [hdone (pass map) (fun outcome => outcome.map fun _ => .done) rfl, hresult, hleft]
      refine ⟨rfl, hstore.restrict fun entry item hshows => ?_⟩
      rw [hshows.isExpired_eq, hshows.value, hshows.timeout]
  | stop =>
      obtain ⟨hresult, hleft⟩ := stop_clears plan (depth + 1) (hstop rfl)
      rw [hdone (Operation.stop map) (fun status => .ok (.status status)) rfl, hresult]
      exact ⟨rfl, .of_entries_eq_nil hleft⟩

/-- The uses of a map among the turns in which it was used, with what the clock showed. -/
def Turn.uses (turns : List (Turn K V)) : List (Use K V × Instant) :=
  turns.map fun turn => (turn.use, turn.now)

theorem uses_represent (hdecides : (plan.settings map).policy.Decides verdicts) {depth : Nat}
    {last : Deployment n S K V} {turns : List (Turn K V)}
    (huses : plan.Uses (depth + 1) map deployment turns last)
    (hstore : (deployment.state map).store.Represents dictionary) :
    turns.map Turn.outcome = (dictionary.answers verdicts (Turn.uses turns)).map .ok ∧
      (last.state map).store.Represents (dictionary.applyAll verdicts (Turn.uses turns)) := by
  -- along the turns; what is represented is all that a use needs to know of those before it
  induction huses generalizing dictionary with
  | done deployment => exact ⟨rfl, hstore⟩
  | meanwhile hsame _ ih => exact ih (hsame ▸ hstore)
  | turn use hstop _ ih =>
      obtain ⟨houtcome, hleft⟩ := use_represents hdecides depth hstore use hstop
      obtain ⟨hrest, hlast⟩ := ih hleft
      refine ⟨?_, hlast⟩
      rw [List.map_cons, hrest, houtcome]
      rfl

/-- A map that begins empty and whose hooks only decide answers every use like a dictionary that
begins empty, and represents that dictionary in the end. -/
theorem answers_like_dictionary (hdecides : (plan.settings map).policy.Decides verdicts)
    (depth : Nat) (hempty : (deployment.state map).store.entries = [])
    {last : Deployment n S K V} {turns : List (Turn K V)}
    (huses : plan.Uses (depth + 1) map deployment turns last) :
    turns.map Turn.outcome =
        ((Dictionary.empty : Dictionary K V).answers verdicts (Turn.uses turns)).map .ok ∧
      (last.state map).store.Represents
        (Dictionary.empty.applyAll verdicts (Turn.uses turns)) :=
  uses_represent hdecides huses (.of_entries_eq_nil hempty)

end Turns

/-- Verdicts that let odd keys pass, and panic at a key that is its own value. -/
def oddOnly : Verdicts Nat Nat where
  valid key _ _ := key % 2 = 1
  confirms key value := if key = value then .error (.code 1) else .ok true

/-- One map with hooks of these verdicts. -/
def deciding : Plan 1 Unit Nat Nat where
  settings _ := { policy := .full fun hook memory => (memory, .answer (oddOnly.on hook)) }
  enumeration _ := .asStored

/-- Some uses of that map, with what the clock shows.  When the clock has moved on, all four entries
have expired.  That of 7 is read, so the pass leaves it alone, as it does those of 8, which is even,
and of 5, at which the hook panics. -/
def variedUses : List (Use Nat Nat × Instant) :=
  let early (use : Use Nat Nat) := (use, Instant.origin)
  let late (use : Use Nat Nat) := (use, (⟨5, by decide⟩ : Instant))
  [early (.put 7 70 .zero), early (.put 8 80 .zero), early (.put 5 5 .zero),
    early (.put 9 90 .zero), late (.get 7), late (.putIfAbsent 8 88 .second), late .purge,
    late (.remove 9), late (.remove 8), late (.remove 5), late (.remove 7)]

/-- That map is used in these ways, and of the entries the pass has evicted that of 9 only. -/
theorem answers_like_dictionary_deciding :
    ∃ (turns : List (Turn Nat Nat)) (last : Deployment 1 Unit Nat Nat),
      Turn.uses turns = variedUses ∧
        turns.map Turn.outcome =
          ((Dictionary.empty : Dictionary Nat Nat).answers oddOnly variedUses).map .ok ∧
        (last.state 0).store.Represents (Dictionary.empty.applyAll oddOnly variedUses) ∧
        turns.map Turn.outcome =
          [.value none, .value none, .value none, .value none, .value (some 70),
            .value (some 80), .done, .value none, .value (some 80), .value (some 5),
            .value (some 70)].map .ok := by
  have hdecides : (deciding.settings 0).policy.Decides oddOnly := fun hook => by
    cases hook <;> exact fun _ => rfl
  let use (use : Use Nat Nat) (deployment : Deployment 1 Unit Nat Nat) :=
    (deciding.use 1 0 use deployment).2
  let start : Deployment 1 Unit Nat Nat := .fresh (.byHand false false) false ()
  let filled := use (.put 9 90 .zero) (use (.put 5 5 .zero) (use (.put 8 80 .zero)
    (use (.put 7 70 .zero) start)))
  let moved : Deployment 1 Unit Nat Nat := { filled with clock := { now := ⟨5, by decide⟩ } }
  have hmoved : (moved.state 0).store = (filled.state 0).store := rfl
  have huses : ∃ turns last, deciding.Uses 1 0 start turns last ∧ Turn.uses turns = variedUses := by
    refine ⟨_, _, .turn (.put 7 70 .zero) (by simp) (.turn (.put 8 80 .zero) (by simp)
      (.turn (.put 5 5 .zero) (by simp) (.turn (.put 9 90 .zero) (by simp) (.meanwhile hmoved
      (.turn (.get 7) (by simp) (.turn (.putIfAbsent 8 88 .second) (by simp)
      (.turn .purge (by simp) (.turn (.remove 9) (by simp) (.turn (.remove 8) (by simp)
      (.turn (.remove 5) (by simp) (.turn (.remove 7) (by simp) (.done _)))))))))))), ?_⟩
    decide +kernel
  obtain ⟨turns, last, huses, hturns⟩ := huses
  obtain ⟨houtcomes, hlast⟩ := answers_like_dictionary hdecides 0 rfl huses
  rw [hturns] at houtcomes hlast
  -- what the map has answered is found out from the dictionary, which is quickly evaluated
  exact ⟨turns, last, hturns, houtcomes, hlast, houtcomes.trans rfl⟩

end ExpiringMap
