import ExpiringMap.Proofs.Ledger.Lines
import ExpiringMap.Proofs.Reachable

/-!
# Balanced accounts

Every entry that was placed in a store is still there or has left it, and none has left twice or is
there after it has left.  That is so at every moment of every run (`balanced_of_calls`), for no act
on a map lets an entry come or go without a line in its account (`MapAct.conserves`).
-/

namespace ExpiringMap

variable {n : Nat} {S K V α : Type}

/-! ## What an act on a map moves -/

/-- An entry as it was made, before its countdown was started. -/
def Entry.made (entry : Entry K V) : Entry K V := { entry with deadline := none }

variable [DecidableEq K]

namespace Store

/-- Reading an entry moves nothing. -/
theorem map_made_touch (store : Store K V) (key : K) (now : Instant) :
    (store.touch key now).entries.map Entry.made = store.entries.map Entry.made := by
  simp only [touch, List.map_map]
  refine List.map_congr_left fun entry _ => ?_
  simp only [Function.comp_apply]
  split <;> rfl

end Store

/-- No act on a map lets an entry come or go without a line in the account of the map. -/
theorem MapAct.conserves (act : MapAct K V) (state : MapState K V) :
    let lines := (act.events state).filterMap MapEvent.line?
    ((lines.filterMap Line.departed? ++ (act.apply state).store.entries).map Entry.made).Perm
      ((lines.filterMap Line.placed? ++ state.store.entries).map Entry.made) := by
  -- what is erased under a key comes back with what has left
  have herase : ∀ {key : K} {entry : Entry K V}, state.store.lookup key = some entry →
      (entry :: (state.store.erase key).entries).Perm state.store.entries := by
    intro key entry hlookup
    obtain ⟨hentry, rfl⟩ := Store.lookup_eq_some_iff.mp hlookup
    exact (Store.perm_erase hentry).symm
  cases act with
  | insert entry now =>
      simp only [events, apply, Store.insert, Store.place, Entry.touch_key]
      cases hlookup : state.store.lookup entry.key with
      | none =>
          have hsame := congrArg Store.entries (Store.erase_eq_self hlookup)
          exact .of_eq (congrArg (fun rest => (entry.touch now :: rest).map Entry.made) hsame)
      | some old =>
          refine List.Perm.map _ (.trans (.swap ..) ?_)
          exact (herase hlookup).cons _
  | insertIfAbsent entry now =>
      simp only [events, apply, Store.insertIfAbsent, Store.place, Entry.touch_key]
      cases hlookup : state.store.lookup entry.key with
      | none =>
          have hsame := congrArg Store.entries (Store.erase_eq_self hlookup)
          exact .of_eq (congrArg (fun rest => (entry.touch now :: rest).map Entry.made) hsame)
      | some present => exact .rfl
  | remove key =>
      simp only [events, apply, Store.remove]
      cases hlookup : state.store.lookup key with
      | none => simp [Store.erase_eq_self hlookup]
      | some entry => exact (herase hlookup).map _
  | removeIfSame key seq =>
      simp only [events, apply, Store.removeIfSame]
      cases hlookup : state.store.lookup key with
      | none => exact .rfl
      | some entry =>
          by_cases hseq : entry.seq = seq
          · simp only [hseq, if_true]
            exact (herase hlookup).map _
          · simp only [hseq, if_false]
            exact .rfl
  | clear =>
      simp [events, apply, Store.clear, List.filterMap_map, MapEvent.line?, Line.departed?,
        Line.placed?, Function.comp_def]
  | read key now =>
      simp only [events, apply, Store.read]
      have hread := state.store.map_made_touch key now
      cases state.store.lookup key <;> exact .of_eq hread
  | shift call source target =>
      simp only [events, apply]
      split <;> exact .rfl
  | borrow | hold | takeHandle =>
      simp only [events, apply]
      split <;> exact .rfl
  | lock | unlock | reserve | scan | size | readPhase | setPhase | keepJob | takeJob | letGo
  | addHandle => exact .rfl

omit [DecidableEq K] in
theorem Entry.stems_of_made_eq {entry other : Entry K V} (h : entry.made = other.made) :
    entry.Stems other := by
  obtain ⟨key, value, timeout, seq, deadline⟩ := entry
  obtain ⟨key', value', timeout', seq', deadline'⟩ := other
  obtain ⟨rfl, rfl, rfl, rfl, -⟩ := Entry.mk.inj h
  exact ⟨rfl, rfl, rfl, rfl⟩

/-- An entry of a store is still there after an act on the map, or the journal tells that it has
left. -/
theorem MapAct.stays_or_leaves (act : MapAct K V) (state : MapState K V) {entry : Entry K V}
    (hentry : entry ∈ state.store.entries) :
    (∃ kept ∈ (act.apply state).store.entries, kept.Stems entry) ∨
      ∃ gone departure, .left gone departure ∈ act.events state ∧ gone.Stems entry := by
  have hmade := (act.conserves state).mem_iff.mpr
    (List.mem_map_of_mem (List.mem_append_right _ hentry))
  obtain ⟨other, hother, hsame⟩ := List.mem_map.mp hmade
  have hstems := Entry.stems_of_made_eq hsame
  -- what becomes of the entry is either a line or an entry that is kept
  rcases List.mem_append.mp hother with hgone | hkept
  · obtain ⟨line, hline, hdeparted⟩ := List.mem_filterMap.mp hgone
    obtain ⟨event, hevent, hnoted⟩ := List.mem_filterMap.mp hline
    refine .inr ⟨other, ?_⟩
    cases event with
    | left gone departure =>
        cases hnoted
        obtain rfl := Option.some.inj hdeparted
        exact ⟨departure, hevent, hstems⟩
    | placed placed now =>
        cases hnoted
        cases hdeparted
    | locked | unlocked | touched | numbered | entered | keptJob => cases hnoted
  · exact .inl ⟨other, hkept, hstems⟩

/-! ## Balance -/

namespace Deployment

/-- Whether the entries that have left a store are, together with those that are there, the entries
that were placed. -/
def Conserves (deployment : Deployment n S K V) (map : Fin n) : Prop :=
  let lines := account map deployment.journal
  ((lines.filterMap Line.departed? ++ (deployment.state map).store.entries).map Entry.made).Perm
    ((lines.filterMap Line.placed?).map Entry.made)

/-- Whether the account of a map balances. -/
structure Balanced (deployment : Deployment n S K V) (map : Fin n) : Prop where
  /-- Every entry that was placed is in the store or has left it. -/
  conserved : deployment.Conserves map
  /-- No entry has left twice, or is in the store after it has left. -/
  once : (((account map deployment.journal).filterMap Line.departed? ++
    (deployment.state map).store.entries).map Entry.seq).Nodup
  /-- There are as many entries as were placed and have not left. -/
  size : (deployment.state map).store.size +
      ((account map deployment.journal).filterMap Line.departed?).length =
    ((account map deployment.journal).filterMap Line.placed?).length

omit [DecidableEq K] in
/-- Numbers tell the entries apart that were placed, so an account balances where nothing is
lost. -/
theorem Conserves.balanced {deployment : Deployment n S K V} {map : Fin n}
    (h : deployment.Conserves map) (hnumbered : deployment.Numbered) : deployment.Balanced map where
  conserved := h
  -- all that was placed has a number of its own, and the account only sorts it otherwise
  once := by
    have hseqs := h.map Entry.seq
    simp only [List.map_map] at hseqs
    refine hseqs.nodup_iff.mpr ?_
    rw [placed_account]
    exact List.pairwise_map.mpr ((hnumbered map).descending.imp fun hlt => Nat.ne_of_gt hlt)
  size := by
    have hlength := h.length_eq
    simp only [List.length_map, List.length_append] at hlength
    show (deployment.state map).store.entries.length + _ = _
    omega

end Deployment

omit [DecidableEq K] in
/-- What is no matter of the maps moves no entry. -/
theorem moved_account_of_aside (map : Fin n) {events : List (Event n K V)}
    (h : ∀ map event, Event.ofMap map event ∉ events) :
    (account map events).filterMap Line.departed? = [] ∧
      (account map events).filterMap Line.placed? = [] := by
  have hnone : ∀ line ∈ account map events, line.departed? = none ∧ line.placed? = none := by
    intro line hline
    obtain ⟨event, hevent, heq⟩ := List.mem_filterMap.mp hline
    -- of events beside the map only summaries are lines, and they tell of no entry
    cases event with
    | ofMap other event => exact absurd hevent (h other event)
    | logged other record =>
        simp only [Event.line?] at heq
        split at heq
        · cases record <;> cases heq
          exact ⟨rfl, rfl⟩
        · cases heq
    | ofScheduler | clockMoved | called | answered | acted | gathered => cases heq
  exact ⟨List.filterMap_eq_nil_iff.mpr fun line hline => (hnone line hline).1,
    List.filterMap_eq_nil_iff.mpr fun line hline => (hnone line hline).2⟩

omit [DecidableEq K] in
/-- What has been conserved is so after an act that conserves it. -/
theorem conserves_append {lines earlier : List (Line K V)} {before after : List (Entry K V)}
    (h : ((earlier.filterMap Line.departed? ++ before).map Entry.made).Perm
      ((earlier.filterMap Line.placed?).map Entry.made))
    (hact : ((lines.filterMap Line.departed? ++ after).map Entry.made).Perm
      ((lines.filterMap Line.placed? ++ before).map Entry.made)) :
    (((lines.reverse ++ earlier).filterMap Line.departed? ++ after).map Entry.made).Perm
      (((lines.reverse ++ earlier).filterMap Line.placed?).map Entry.made) := by
  simp only [List.filterMap_append, List.filterMap_reverse, List.map_append,
    List.map_reverse] at h hact ⊢
  -- in the account the lines of the act stand before those of earlier acts, the last one first
  set departed := (earlier.filterMap Line.departed?).map Entry.made
  set left := (lines.filterMap Line.departed?).map Entry.made
  set placed := (lines.filterMap Line.placed?).map Entry.made
  have hfirst : (left.reverse ++ departed ++ after.map Entry.made).Perm
      (departed ++ (left ++ after.map Entry.made)) := by
    rw [List.append_assoc]
    exact ((List.reverse_perm left).append_right _).trans (List.perm_append_comm_assoc ..)
  have hlast : (departed ++ (placed ++ before.map Entry.made)).Perm
      (placed.reverse ++ (departed ++ before.map Entry.made)) :=
    (List.perm_append_comm_assoc ..).trans ((List.reverse_perm placed).symm.append_right _)
  exact hfirst.trans ((hact.append_left departed).trans (hlast.trans (h.append_left _)))

/-- Nothing is lost in whatever goes on. -/
theorem stepwise_conserves (plan : Plan n S K V) (map : Fin n) :
    Stepwise plan fun earlier later => earlier.Conserves map → later.Conserves map where
  trans h h' := h' ∘ h
  aside := by
    intro earlier later haside h
    obtain ⟨events, hjournal, hnone⟩ := haside.journal
    obtain ⟨hdeparted, hplaced⟩ := moved_account_of_aside map hnone
    unfold Deployment.Conserves
    simp only [hjournal, account_append, List.filterMap_append, hdeparted, hplaced,
      List.nil_append, haside.state]
    exact h
  onMap deployment other act h := by
    have haccount : account map (deployment.onMap plan.enumeration other act).2.journal = _ :=
      account_perform map plan.enumeration deployment (.map other act)
        (deployment.onMap plan.enumeration other act).1 deployment
    unfold Deployment.Conserves at h ⊢
    rw [haccount, Deployment.state_onMap]
    by_cases heq : map = other
    · -- what the act adds to the account is what it changes in the store
      subst heq
      simp only [Moment.lines, if_true]
      exact conserves_append h (act.conserves (deployment.state map))
    · have hne : ¬ other = map := fun h => heq h.symm
      simp only [Moment.lines, heq, hne, if_false, List.reverse_nil, List.nil_append]
      exact h

/-- Accounts balance in the end and before and after every step that is taken for any request. -/
theorem balanced_of_calls (plan : Plan n S K V) (depth : Nat) (drive : Drive) (clockRuns : Bool)
    (memory : S) (standing : Fin n) (calls : List (Call n K V)) (map : Fin n) :
    let fresh := Deployment.fresh drive clockRuns memory
    (plan.serveCalls (plan.consultation depth) standing calls fresh).2.Balanced map ∧
      ∀ serving ∈ plan.servingsOfCalls (plan.listing depth) (plan.consultation depth) standing
        calls fresh,
        ∀ moment ∈ serving.moments, moment.before.Balanced map ∧ moment.after.Balanced map := by
  intro fresh
  have hreachable : plan.Reachable fresh := .fresh drive clockRuns memory
  have hconserves : fresh.Conserves map := by
    unfold Deployment.Conserves
    rw [Plan.Reachable.state_fresh]
    exact .rfl
  -- conservation and numbering both last, and a balance follows from the two
  have hlasting := (stepwise_conserves plan map).lasting.and (lasting_proceeds plan)
  have hbalanced : ∀ {later : Deployment n S K V},
      ((fresh.Conserves map → later.Conserves map) ∧ fresh.Proceeds later) → later.Balanced map :=
    fun h => (h.1 hconserves).balanced (h.2.numbered hreachable.numbered)
  obtain ⟨hlast, hmoments⟩ := hlasting.accrues_moments.calls depth standing calls fresh
  refine ⟨hbalanced hlast, fun serving hserving moment hmoment => ?_⟩
  obtain ⟨hbefore, hafter⟩ := hmoments serving hserving moment hmoment
  exact ⟨hbalanced hbefore, hbalanced hafter⟩

end ExpiringMap
