import ExpiringMap.Proofs.Pass.Candidates
import ExpiringMap.Proofs.Reachable
import ExpiringMap.Proofs.Store.Removal
import Mathlib.Tactic.Set

/-!
# The course of a pass

A pass is an inquiry followed by a conclusion (`pass_eq`).  The inquiry goes up to the last
notification: it scans the store, shows what it finds to the screening hook and tells the eviction
hook of the candidates.  All consultations of the pass belong to it, and its own acts leave the
stores as they are (`leavesStores_inquiry`).  The conclusion consults nobody; it takes out the
confirmed candidates and writes the summary.

What an inquiry asks and what it comes to is `inquiry_course`, what a conclusion then does is
`conclusion_course`.  Like the statements on loops that they are made of, both hold for every way
in which hooks may be run, hence for every depth at which the pass itself may be nested.
-/

namespace ExpiringMap.Operation

open Program

variable {n : Nat} {S K V : Type} [DecidableEq K]

/-! ## The loops of a pass -/

section Loops

variable (plan : Plan n S K V) (consultation : Consultation n S K V) (map : Fin n)

/-- The screening hook is shown entries in turn.  If it panics at one of them, that is the last
one; otherwise all are shown, and those it says yes to are let through. -/
theorem screen_course (entries : List (Entry K V)) (deployment : Deployment n S K V) :
    ∃ screened : List (Entry K V × Outcome Bool),
      consultations ((screen map entries).trace (plan.respond consultation) deployment) =
          screenings map screened ∧
        screened.map Prod.fst <+: entries ∧
        match ((screen map entries).run (plan.respond consultation) deployment).1 with
        | .ok accepted =>
            screened.map Prod.fst = entries ∧ (∀ pair ∈ screened, pair.2.isOk = true) ∧
              accepted = agreed screened
        | .error panic => ∃ entry, (entry, .error panic) ∈ screened := by
  -- from entry to entry, since the first panic ends the screening
  induction entries generalizing deployment with
  | nil => exact ⟨[], rfl, List.nil_prefix, rfl, by simp, rfl⟩
  | cons entry rest ih =>
      simp only [screen, bind_eq, consult, act_bind, done_bind, trace_act, run_act,
        consultations_consult]
      set verdict := (plan.respond consultation (.consult map (.screening entry)) deployment).1
        with hverdict
      set after := (plan.respond consultation (.consult map (.screening entry)) deployment).2
      clear_value verdict after
      cases verdict with
      -- nothing is screened after the panic
      | error panic =>
          refine ⟨[(entry, .error panic)], rfl, ?_, entry, List.mem_singleton_self _⟩
          exact List.prefix_append [entry] rest
      | ok valid =>
          obtain ⟨screened, hconsulted, hshort, hresult⟩ := ih after
          refine ⟨(entry, .ok valid) :: screened, ?_, ?_, ?_⟩
          · simp only [trace_bind, consultations_append, hconsulted]
            split <;> simp
          · exact (List.prefix_cons_inj entry).mpr hshort
          · simp only [run_bind]
            split at hresult
            · -- nothing panics in the rest either, so the entry counts if the verdict is a yes
              next accepted heq =>
              obtain ⟨hall, hok, rfl⟩ := hresult
              simp only [heq]
              refine ⟨by rw [List.map_cons, hall], ?_, ?_⟩
              · rintro pair hpair
                rcases List.mem_cons.mp hpair with rfl | hpair
                · rfl
                · exact hok pair hpair
              · cases valid <;> simp [Outcome.isYes]
            · next panic heq =>
              obtain ⟨other, hother⟩ := hresult
              simp only [heq]
              exact ⟨other, List.mem_cons_of_mem _ hother⟩

/-- The eviction hook is told of entries in turn, of all of them; those it says yes to are
confirmed. -/
theorem notifyAll_course (entries : List (Entry K V)) (deployment : Deployment n S K V) :
    ∃ notified : List (Entry K V × Outcome Bool),
      notified.map Prod.fst = entries ∧
        consultations ((notifyAll map entries).trace (plan.respond consultation) deployment) =
          notifications map notified ∧
        ((notifyAll map entries).run (plan.respond consultation) deployment).1 =
          agreed notified := by
  induction entries generalizing deployment with
  | nil => exact ⟨[], rfl, rfl, rfl⟩
  | cons entry rest ih =>
      simp only [notifyAll, notify, bind_eq, consult, act_bind, done_bind, trace_act, run_act,
        consultations_consult]
      set verdict := (plan.respond consultation
        (.consult map (.eviction entry.key entry.value)) deployment).1
      set after := (plan.respond consultation
        (.consult map (.eviction entry.key entry.value)) deployment).2
      clear_value verdict after
      cases verdict with
      | ok confirmed =>
          obtain ⟨notified, hentries, hconsulted, hresult⟩ := ih after
          refine ⟨(entry, .ok confirmed) :: notified, by rw [List.map_cons, hentries], ?_, ?_⟩
          · simp [hconsulted]
          · simp only [run_bind, pure_eq_done, done_bind, run_done, hresult]
            cases confirmed <;> simp [Outcome.isYes]
      | error panic =>
          -- the panic is written to the log before the next entry has its turn
          obtain ⟨notified, hentries, hconsulted, hresult⟩ :=
            ih (after.note [.logged map (.hookPanicked panic)])
          refine ⟨(entry, .error panic) :: notified, by rw [List.map_cons, hentries], ?_, ?_⟩
          · simp [log, Plan.respond, Deployment.perform, hconsulted]
          · simp [log, Plan.respond, Deployment.perform, hresult, Outcome.isYes]

/-- Entries are taken out in turn by key and number, and no other store is touched. -/
theorem removeAll_course (entries : List (Entry K V)) (deployment : Deployment n S K V) :
    let removed := (deployment.state map).store.removeEach
      (entries.map fun entry => (entry.key, entry.seq))
    ((removeAll map entries).run (plan.respond consultation) deployment).1 = removed.1 ∧
      ∀ other,
        (((removeAll map entries).run (plan.respond consultation) deployment).2.state other).store =
          if other = map then removed.2 else (deployment.state other).store := by
  -- one entry after the other, the store being what the removals so far have left
  induction entries generalizing deployment with
  | nil =>
      refine ⟨rfl, fun other => ?_⟩
      split
      · next heq => rw [heq]; rfl
      · rfl
  | cons entry rest ih =>
      set after := (deployment.onMap plan.enumeration map
        (.removeIfSame entry.key entry.seq)).2 with hafter
      have hstore : (after.state map).store =
          ((deployment.state map).store.removeIfSame entry.key entry.seq).2 := by
        rw [hafter, Deployment.state_onMap, if_pos rfl]
        rfl
      obtain ⟨hcount, hstores⟩ := ih after
      rw [hstore] at hcount hstores
      refine ⟨?_, fun other => ?_⟩
      · simp only [removeAll, removeIfSame, onMap, bind_eq, act_bind, done_bind, run_act, run_bind]
        simp only [Plan.respond, Deployment.perform, ← hafter, hcount]
        rfl
      · have hrest := hstores other
        simp only [removeAll, removeIfSame, onMap, bind_eq, act_bind, done_bind, run_act, run_bind]
        simp only [Plan.respond, Deployment.perform, ← hafter]
        refine hrest.trans ?_
        -- only this map's store is changed
        by_cases heq : other = map
        · rw [if_pos heq, if_pos heq]
          rfl
        · rw [if_neg heq, if_neg heq, hafter, Deployment.state_onMap, if_neg heq]

end Loops

/-! ## Inquiry and conclusion -/

/-- How a pass begins: it takes the lock and lists what has expired. -/
def search (map : Fin n) : Operation n K V (List (Entry K V)) := do
  lock map
  let count ← size map
  log map (.entryCount count)
  if (← size map) = 0 then
    return []
  let now ← now
  scan map now

/-- How a pass consults the hooks on what it has found; gives the candidates in the order in which
the eviction hook was told of them, and those it confirmed. -/
def consultAll (map : Fin n) (found : List (Entry K V)) :
    Operation n K V (Outcome (List (Entry K V) × List (Entry K V))) := do
  match ← screen map found with
  | .error panic => return .error panic
  | .ok accepted =>
      let candidates := Entry.inOrder accepted
      let confirmed ← notifyAll map candidates
      return .ok (candidates, confirmed)

/-- A pass up to its last notification. -/
def inquiry (map : Fin n) : Operation n K V (Outcome (List (Entry K V) × List (Entry K V))) := do
  let found ← search map
  consultAll map found

/-- What a pass does after its last notification. -/
def conclusion (map : Fin n) :
    Outcome (List (Entry K V) × List (Entry K V)) → Operation n K V (Outcome Unit)
  | .error panic => do
      unlock map
      return .error panic
  | .ok ([], _) => do
      unlock map
      return .ok ()
  | .ok (_ :: others, confirmed) => do
      let evicted ← removeAll map confirmed
      log map (.passSummary evicted (others.length + 1))
      unlock map
      return .ok ()

omit [DecidableEq K] in
theorem length_inOrder (entries : List (Entry K V)) :
    (Entry.inOrder entries).length = entries.length :=
  (Entry.inOrder_perm entries).length_eq

omit [DecidableEq K] in
/-- A pass is an inquiry followed by its conclusion. -/
theorem pass_eq (map : Fin n) :
    pass (K := K) (V := V) map = (inquiry map).bind (conclusion map) := by
  simp only [pass, guarded, inquiry, search, bind_eq, pure_eq_done, Program.bind_assoc]
  congr 1
  funext _
  congr 1
  funext count
  congr 1
  funext _
  congr 1
  funext size
  -- in an empty store there is nothing to be found
  split
  · rfl
  simp only [Program.bind_assoc]
  congr 1
  funext now
  congr 1
  funext found
  simp only [consultAll, bind_eq, pure_eq_done, Program.bind_assoc]
  congr 1
  funext screened
  rcases screened with panic | accepted
  · rfl
  simp only [Program.bind_assoc, done_bind]
  -- the candidates are counted after they have been put in order, and before in the pass
  cases accepted with
  | nil => rfl
  | cons first others =>
      have hlength := length_inOrder (first :: others)
      cases hcandidates : Entry.inOrder (first :: others) with
      | nil => simp [hcandidates] at hlength
      | cons candidate rest =>
          simp only [hcandidates, List.length_cons] at hlength
          simp only [evict, hcandidates, bind_eq, Program.bind_assoc, conclusion, List.length_cons]
          rw [← Nat.succ.inj hlength]
          rfl

/-! ## The steps of both parts -/

section Steps

variable (map : Fin n)

omit [DecidableEq K] in
theorem asks_consultAll (found : List (Entry K V)) :
    (consultAll map found).Every (Step.Asks map) := by
  refine every_bind (asks_screen map found) fun screened => ?_
  cases screened with
  | error panic => trivial
  | ok accepted => exact every_bind (asks_notifyAll map _) fun _ => trivial

omit [DecidableEq K] in
theorem tells_consultAll (found : List (Entry K V)) :
    (consultAll map found).Every Step.Tells :=
  (asks_consultAll map found).mono fun _ h => h.tells

omit [DecidableEq K] in
theorem searches_search : (search (K := K) (V := V) map).Every (Step.Searches map) := by
  refine every_bind ⟨.inl rfl, fun _ => trivial⟩ fun _ => ?_
  refine every_bind ⟨.inr (.inl rfl), fun _ => trivial⟩ fun count => ?_
  refine every_bind ⟨.inr (.inr (.inr (.inr ⟨count, rfl⟩))), fun _ => trivial⟩ fun _ => ?_
  refine every_bind ⟨.inr (.inl rfl), fun _ => trivial⟩ fun size => ?_
  split
  · trivial
  · refine every_bind ⟨.inr (.inr (.inr (.inl rfl))), fun _ => trivial⟩ fun now => ?_
    exact ⟨.inr (.inr (.inl ⟨now, rfl⟩)), fun _ => trivial⟩

theorem leavesStores_search : (search (K := K) (V := V) map).Every Step.LeavesStores := by
  refine (searches_search map).mono fun step hstep => ?_
  rcases hstep with rfl | rfl | ⟨now, rfl⟩ | rfl | ⟨count, rfl⟩ <;>
    first | trivial | exact fun _ => rfl

/-- Up to its last notification a pass itself leaves the stores as they are. -/
theorem leavesStores_inquiry : (inquiry (K := K) (V := V) map).Every Step.LeavesStores :=
  every_bind (leavesStores_search map) fun found =>
    (tells_consultAll map found).mono fun _ h => h.leavesStores

omit [DecidableEq K] in
/-- After its last notification a pass takes out what has been confirmed, writes the log and gives
the lock back. -/
theorem concludes_conclusion (result : Outcome (List (Entry K V) × List (Entry K V))) :
    (conclusion map result).Every (Step.Concludes map (confirmedBy result)) := by
  have hunlock : (unlock map).Every (Step.Concludes map (confirmedBy result)) :=
    ⟨.inr (.inl rfl), fun _ => trivial⟩
  rcases result with panic | ⟨_ | ⟨first, others⟩, confirmed⟩
  · exact every_bind hunlock fun _ => trivial
  · exact every_bind hunlock fun _ => trivial
  · refine every_bind ((removes_removeAll map confirmed).mono fun _ h => .inl h) fun evicted => ?_
    refine every_bind ⟨.inr (.inr ⟨_, rfl⟩), fun _ => trivial⟩ fun _ => ?_
    exact every_bind hunlock fun _ => trivial

omit [DecidableEq K] in
/-- After its last notification a pass neither consults a hook nor reads the clock. -/
theorem settles_conclusion (result : Outcome (List (Entry K V) × List (Entry K V))) :
    (conclusion map result).Every Step.Settles :=
  (concludes_conclusion map result).mono fun _ h => h.settles

omit [DecidableEq K] in
/-- All that a pass does is to search its map, to consult the hooks and to conclude. -/
theorem steps_pass :
    (pass (K := K) (V := V) map).Every fun step =>
      step.Searches map ∨ step.Asks map ∨ ∃ confirmed, step.Concludes map confirmed := by
  rw [pass_eq]
  refine every_bind (every_bind ?_ fun found => ?_) fun result => ?_
  · exact (searches_search map).mono fun _ h => .inl h
  · exact (asks_consultAll map found).mono fun _ h => .inr (.inl h)
  · exact (concludes_conclusion map result).mono fun _ h => .inr (.inr ⟨_, h⟩)

end Steps

/-! ## Inquiries and conclusions, run through -/

section Inquiry

variable (plan : Plan n S K V) (consultation : Consultation n S K V) (map : Fin n)

/-- A search reads the clock once, unless the store is empty, and lists what has expired. -/
theorem search_course (deployment : Deployment n S K V) :
    let moments := (search map).trace (plan.respond consultation) deployment
    let store := (deployment.state map).store
    let now := (deployment.onClock .read).1
    consultations moments = [] ∧
      readings moments = (if store.isEmpty then [] else [now]) ∧
      ((search map).run (plan.respond consultation) deployment).1.Perm (store.expired now) := by
  by_cases hempty : (deployment.state map).store.size = 0
  · have hentries := List.eq_nil_of_length_eq_zero hempty
    simp [search, lock, size, log, onMap, Plan.respond, Deployment.perform, MapAct.answer,
      MapAct.apply, hempty, Store.isEmpty, Store.expired, hentries]
  · -- whatever the enumeration does, it lists what has expired
    have hentries : (deployment.state map).store.entries ≠ [] :=
      fun h => hempty (List.length_eq_zero_iff.mpr h)
    simpa [search, lock, size, log, now, scan, onMap, onClock, Plan.respond, Deployment.perform,
      MapAct.answer, MapAct.apply, hempty, Store.isEmpty, hentries]
      using (plan.enumeration map).perm _ _

/-- What was found is shown to the screening hook, and unless that panics, what it lets through is
told to the eviction hook in order. -/
theorem consultAll_course (found : List (Entry K V)) (deployment : Deployment n S K V) :
    ∃ screened notified : List (Entry K V × Outcome Bool),
      consultations ((consultAll map found).trace (plan.respond consultation) deployment) =
          screenings map screened ++ notifications map notified ∧
        screened.map Prod.fst <+: found ∧
        ComesTo found screened notified
          ((consultAll map found).run (plan.respond consultation) deployment).1 := by
  obtain ⟨screened, hconsulted, hshort, hresult⟩ :=
    screen_course plan consultation map found deployment
  simp only [consultAll, bind_eq, trace_bind, run_bind, consultations_append, hconsulted]
  split at hresult
  · -- all were let through or refused, so the candidates are told in order
    next accepted haccepted =>
    obtain ⟨hall, hok, rfl⟩ := hresult
    obtain ⟨notified, hentries, hnotified, hconfirmed⟩ := notifyAll_course plan consultation map
      (Entry.inOrder (agreed screened))
      ((screen map found).run (plan.respond consultation) deployment).2
    refine ⟨screened, notified, ?_, hshort, ?_⟩
    · simp [haccepted, hnotified]
    · simp only [haccepted, run_bind, pure_eq_done, run_done]
      exact ⟨hall, hok, rfl, hentries, hconfirmed⟩
  · next panic hpanic =>
    refine ⟨screened, [], by simp [hpanic], hshort, ?_⟩
    simp only [hpanic, pure_eq_done, run_done]
    exact ⟨rfl, hresult⟩

theorem readings_consultAll (found : List (Entry K V)) (deployment : Deployment n S K V) :
    readings ((consultAll map found).trace (plan.respond consultation) deployment) = [] :=
  readings_eq_nil fun _ hmoment => ((tells_consultAll map found).of_mem_trace hmoment).ne_read

/-- An inquiry shows what has expired to the screening hook, and what that lets through to the
eviction hook. -/
theorem inquiry_course (deployment : Deployment n S K V) :
    let moments := (inquiry map).trace (plan.respond consultation) deployment
    let store := (deployment.state map).store
    let now := (deployment.onClock .read).1
    ∃ (found : List (Entry K V)) (screened notified : List (Entry K V × Outcome Bool)),
      consultations moments = screenings map screened ++ notifications map notified ∧
        readings moments = (if store.isEmpty then [] else [now]) ∧
        found.Perm (store.expired now) ∧ screened.map Prod.fst <+: found ∧
        ComesTo found screened notified
          ((inquiry map).run (plan.respond consultation) deployment).1 := by
  -- the search consults nobody, and what comes after it reads no clock
  obtain ⟨hsilent, hreadings, hfound⟩ := search_course plan consultation map deployment
  obtain ⟨screened, notified, hconsulted, hshort, hresult⟩ := consultAll_course plan consultation
    map ((search map).run (plan.respond consultation) deployment).1
    ((search map).run (plan.respond consultation) deployment).2
  refine ⟨_, screened, notified, ?_, ?_, hfound, hshort, ?_⟩
  · rw [inquiry, bind_eq, trace_bind, consultations_append, hsilent, hconsulted, List.nil_append]
  · rw [inquiry, bind_eq, trace_bind, readings_append, hreadings, readings_consultAll,
      List.append_nil]
  · rwa [inquiry, bind_eq, run_bind]

end Inquiry

section Conclusion

variable (plan : Plan n S K V) (consultation : Consultation n S K V) (map : Fin n)

theorem records_removeAll (entries : List (Entry K V)) (deployment : Deployment n S K V) :
    records ((removeAll map entries).trace (plan.respond consultation) deployment) = [] := by
  induction entries generalizing deployment with
  | nil => rfl
  | cons entry rest ih => simp [removeAll, removeIfSame, onMap, ih]

/-- Giving the lock back at the end leaves the stores as they are, and writes nothing. -/
theorem unlock_course {α : Type} (result : α) (deployment : Deployment n S K V) :
    let ending := (unlock map).bind fun _ => (.done result : Operation n K V α)
    (∀ other, ((ending.run (plan.respond consultation) deployment).2.state other).store =
        (deployment.state other).store) ∧
      records (ending.trace (plan.respond consultation) deployment) = [] := by
  refine ⟨fun other => ?_, rfl⟩
  change ((deployment.onMap plan.enumeration map .unlock).2.state other).store = _
  rw [Deployment.state_onMap]
  split
  · next heq => rw [heq]; rfl
  · rfl

/-- A conclusion takes out the confirmed candidates.  If there were candidates, it writes how many
entries have left the store that way. -/
theorem conclusion_course {found : List (Entry K V)}
    {screened notified : List (Entry K V × Outcome Bool)}
    {result : Outcome (List (Entry K V) × List (Entry K V))}
    (hresult : ComesTo found screened notified result) (deployment : Deployment n S K V) :
    let moments := (conclusion map result).trace (plan.respond consultation) deployment
    let after := ((conclusion map result).run (plan.respond consultation) deployment).2
    let store := (deployment.state map).store
    (after.state map).store =
        store.without ((agreed notified).map fun entry => (entry.key, entry.seq)) ∧
      (∀ other, other ≠ map → (after.state other).store = (deployment.state other).store) ∧
      ∃ evicted, evicted + (after.state map).store.size = store.size ∧
        records moments =
          if notified.isEmpty then [] else [(map, .passSummary evicted notified.length)] := by
  rcases result with panic | ⟨_ | ⟨first, others⟩, confirmed⟩
  · -- a screening has panicked, so nothing was confirmed
    obtain ⟨rfl, -⟩ := hresult
    obtain ⟨hstores, hrecords⟩ :=
      unlock_course plan consultation map (.error panic : Outcome Unit) deployment
    refine ⟨?_, fun other _ => hstores other, 0, ?_, hrecords⟩
    · exact (hstores map).trans (Store.without_nil _).symm
    · exact (Nat.zero_add _).trans (congrArg Store.size (hstores map))
  · obtain ⟨-, -, -, hnone, -⟩ := hresult
    obtain rfl := List.map_eq_nil_iff.mp hnone
    obtain ⟨hstores, hrecords⟩ :=
      unlock_course plan consultation map (.ok () : Outcome Unit) deployment
    refine ⟨?_, fun other _ => hstores other, 0, ?_, hrecords⟩
    · exact (hstores map).trans (Store.without_nil _).symm
    · exact (Nat.zero_add _).trans (congrArg Store.size (hstores map))
  · -- there were candidates, and those that were confirmed are removed
    obtain ⟨-, -, -, hcandidates, rfl⟩ := hresult
    have hlength : notified.length = others.length + 1 := by
      simpa using congrArg List.length hcandidates
    have hsome : notified.isEmpty = false := by
      cases notified <;> simp at hlength ⊢
    obtain ⟨hevicted, hremoved⟩ :=
      removeAll_course plan consultation map (agreed notified) deployment
    set removal := (removeAll map (agreed notified)).run (plan.respond consultation) deployment
      with hremoval
    obtain ⟨hstores, hrecords⟩ := unlock_course plan consultation map (.ok () : Outcome Unit)
      (removal.2.note [.logged map (.passSummary removal.1 (others.length + 1))])
    simp only [conclusion, log, bind_eq, pure_eq_done, act_bind, done_bind, run_bind, run_act,
      trace_bind, trace_act, records_append, records_removeAll, records_log, Plan.respond,
      Deployment.perform, ← hremoval] at hstores hrecords ⊢
    simp only [hstores, hrecords, hremoved, Deployment.state_note, Store.removeEach_snd, if_true]
    refine ⟨trivial, fun other hne => if_neg hne, removal.1, ?_, ?_⟩
    · rw [hevicted]
      exact Store.removeEach_fst _ _
    · rw [hsome, hlength]
      rfl

end Conclusion

/-! ## What a whole pass asks and reads -/

section Whole

variable (plan : Plan n S K V) (consultation : Consultation n S K V) (map : Fin n)

theorem consultations_conclusion (result : Outcome (List (Entry K V) × List (Entry K V)))
    (deployment : Deployment n S K V) :
    consultations ((conclusion map result).trace (plan.respond consultation) deployment) = [] :=
  consultations_eq_nil fun _ hmoment =>
    ((settles_conclusion map result).of_mem_trace hmoment).isAct

theorem readings_conclusion (result : Outcome (List (Entry K V) × List (Entry K V)))
    (deployment : Deployment n S K V) :
    readings ((conclusion map result).trace (plan.respond consultation) deployment) = [] :=
  readings_eq_nil fun _ hmoment =>
    ((settles_conclusion map result).of_mem_trace hmoment).ne_read

theorem consultations_pass (deployment : Deployment n S K V) :
    consultations ((pass map).trace (plan.respond consultation) deployment) =
      consultations ((inquiry map).trace (plan.respond consultation) deployment) := by
  rw [pass_eq, trace_bind, consultations_append, consultations_conclusion, List.append_nil]

theorem readings_pass (deployment : Deployment n S K V) :
    readings ((pass map).trace (plan.respond consultation) deployment) =
      readings ((inquiry map).trace (plan.respond consultation) deployment) := by
  rw [pass_eq, trace_bind, readings_append, readings_conclusion, List.append_nil]

end Whole

/-! ## The course of one pass -/

/-- One map whose hooks treat every key in a way of its own: the entry of 0 is not let through, that
of 1 is refused, at that of 2 the eviction hook panics, that of 3 it puts again before it says yes,
and to the others it says yes. -/
def discerning : Plan 1 Unit Nat Nat where
  settings _ :=
    { policy := .full fun hook memory =>
        match hook with
        | .screening entry => (memory, .answer (.ok (entry.key != 0)))
        | .eviction 1 _ => (memory, .answer (.ok false))
        | .eviction 2 _ => (memory, .answer (.error (.code 1)))
        | .eviction 3 value =>
            (memory, .ofCalls (.ok true) [.ask [] (.map (.put 3 value .second))])
        | .eviction _ _ => (memory, .answer (.ok true)) }
  enumeration _ := .asStored

/-- An entry of that many nanoseconds that was put in when the clock was at its origin, with its key
for a number. -/
def shortLived (key value ns : Nat) : Entry Nat Nat :=
  Entry.touch ⟨key, value, (Duration.ofNanoseconds? ns).getD .zero, key, none⟩ .origin

/-- The deployment of that map after five entries have been put in that have all expired since, two
of them at the same instant. -/
def crowded : Deployment 1 Unit Nat Nat :=
  let only : Fin 1 := ⟨0, Nat.zero_lt_one⟩
  let serve (request : Request Nat Nat) (deployment : Deployment 1 Unit Nat Nat) :=
    (discerning.run 0 (discerning.operation only request) deployment).2
  let put (entry : Entry Nat Nat) := serve (.map (.put entry.key entry.value entry.timeout))
  serve (.advance 5) (put (shortLived 4 40 0) (put (shortLived 3 30 0) (put (shortLived 2 20 1)
    (put (shortLived 1 10 2) (put (shortLived 0 50 3)
      (.fresh (.byHand false false) false ()))))))

theorem reachable_crowded : discerning.Reachable crowded :=
  ((((((Plan.Reachable.fresh _ _ _).run 0 0 _).run 0 0 _).run 0 0 _).run 0 0 _).run 0 0 _).run 0 0 _

/-- What the screening hook says of these entries, in the order in which they are listed. -/
def crowdedScreened : List (Entry Nat Nat × Outcome Bool) :=
  [(shortLived 4 40 0, .ok true), (shortLived 3 30 0, .ok true), (shortLived 2 20 1, .ok true),
    (shortLived 1 10 2, .ok true), (shortLived 0 50 3, .ok false)]

/-- What the eviction hook says, in the order of deadlines and, where these are equal, of
numbers. -/
def crowdedNotified : List (Entry Nat Nat × Outcome Bool) :=
  [(shortLived 3 30 0, .ok true), (shortLived 4 40 0, .ok true),
    (shortLived 2 20 1, .error (.code 1)), (shortLived 1 10 2, .ok false)]

def passOverCrowded : List (Moment 1 Unit Nat Nat) :=
  let only : Fin 1 := ⟨0, Nat.zero_lt_one⟩
  (pass only).trace (discerning.respond (discerning.consultation 1)) crowded

theorem consultations_passOverCrowded : consultations passOverCrowded =
    screenings 0 crowdedScreened ++ notifications 0 crowdedNotified := by
  decide +kernel

end ExpiringMap.Operation
