import ExpiringMap.Proofs.Ledger.Balance
import ExpiringMap.Proofs.Ledger.Requests

/-!
# Every entry is accounted for once

However calls, passes and hooks are nested, every entry that comes into a store leaves it at most
once, and in the ledger of exactly one request: as the value that a put or a remove returns, in the
sweep of one pass, or in a stop.  If the hooks leave the map alone that consults them, then what
they confirm is what is evicted, once, and nobody is given it besides (`entries_leave_once`).

Four things are put together here.

* No act lets an entry come or go without a line, and the numbers tell the entries apart, so no two
  lines are on the departure of one entry (`balanced_of_calls`).
* The account of a map is what all servings have in their ledgers, and nothing besides
  (`accrues_books`).
* The ledger of a serving has the entries that its request moves, as the answer tells, and sweeps
  (`Operation.accounted_serve`).
* A sweep has what the eviction hook confirmed, if the hooks leave the map alone
  (`Operation.swept_pass`).
-/

namespace ExpiringMap

variable {n : Nat} {S K V : Type}

/-! ## Ledgers that agree with the hooks -/

/-- Whether the evictions among some lines are those that were confirmed, in their order. -/
def Agrees (lines : List (Line K V)) : Prop :=
  lines.filterMap Line.confirmation? = (lines.filterMap Line.evicted?).map Entry.confirmation

theorem Agrees.append {earlier later : List (Line K V)} (h : Agrees earlier) (h' : Agrees later) :
    Agrees (earlier ++ later) := by
  unfold Agrees at *
  rw [List.filterMap_append, List.filterMap_append, List.map_append, h, h']

theorem agrees_flatMap {β : Type} {parts : List β} {lines : β → List (Line K V)}
    (h : ∀ part ∈ parts, Agrees (lines part)) : Agrees (parts.flatMap lines) := by
  induction parts with
  | nil => rfl
  | cons part rest ih =>
      obtain ⟨hpart, hrest⟩ := List.forall_mem_cons.mp h
      exact hpart.append (ih hrest)

theorem Sweep.IsExact.agrees {sweep : Sweep K V} (h : sweep.IsExact) : Agrees sweep.lines := by
  have hconfirmed : sweep.lines.filterMap Line.confirmation? = sweep.confirmed := by
    simp [lines, List.filterMap_append, List.filterMap_map, Function.comp_def, Line.confirmation?]
  have hevicted : sweep.lines.filterMap Line.evicted? = sweep.evicted := by
    simp [lines, List.filterMap_append, List.filterMap_map, Function.comp_def, Line.evicted?]
  unfold Agrees
  rw [hconfirmed, hevicted]
  exact h

/-- The lines that a request writes itself are neither confirmations nor evictions. -/
theorem Request.Moves.agrees {request : Request K V} {outcome : Outcome (Answer V)}
    {lines : List (Line K V)} (h : request.Moves outcome lines) : Agrees lines := by
  unfold Moves at h
  -- one case for each way in which a request moves entries
  split at h
  · obtain ⟨entry, -, -, -, h⟩ := h
    split at h
    · rw [h]
      rfl
    · obtain ⟨old, -, -, rfl⟩ := h
      rfl
  · obtain ⟨entry, -, -, -, rfl⟩ := h
    rfl
  · obtain ⟨old, -, -, rfl⟩ := h
    rfl
  · obtain ⟨entries, rfl⟩ := h
    simp [Agrees, List.filterMap_map, Function.comp_def, Line.confirmation?, Line.evicted?]
  · rw [h]
    rfl

variable [DecidableEq K]

theorem Serving.Accounted.agrees {map : Fin n} {serving : Serving n S K V}
    (h : serving.Accounted map) (hrefrains : ∀ moment ∈ serving.moments, moment.Refrains map) :
    Agrees (ledger map serving.moments) := by
  obtain ⟨earlier, later, own, hledger, hmoves, hexact⟩ := h
  have hsweeps := List.forall_mem_append.mp (hexact hrefrains)
  have hown : Agrees own := by
    split at hmoves
    · exact hmoves.agrees
    · rw [hmoves]
      rfl
  rw [hledger]
  exact ((agrees_flatMap fun sweep hsweep => (hsweeps.1 sweep hsweep).agrees).append hown).append
    (agrees_flatMap fun sweep hsweep => (hsweeps.2 sweep hsweep).agrees)

/-- Whatever requests are served, their ledgers account for what they move. -/
theorem accrues_accounted (plan : Plan n S K V) (map : Fin n) :
    Accrues plan fun earlier servings later =>
      Deployment.Records map earlier later ∧ ∀ serving ∈ servings, serving.Accounted map :=
  (stepwise_records plan map).lasting.accrues (fun _ h => h)
    fun _ hconsult asked request deployment =>
      Operation.accounted_serve hconsult (plan.settings asked) asked request deployment

/-! ## No entry leaves twice -/

omit [DecidableEq K] in
/-- What is noted of some lines are all that tell of entries that left. -/
theorem departed_noted (lines : List (Line K V)) :
    (lines.filter Line.isNoted).filterMap Line.departed? = lines.filterMap Line.departed? := by
  rw [List.filterMap_filter]
  congr 1
  funext line
  cases line <;> rfl

omit [DecidableEq K] in
/-- Where accounts balance, the lines on a departure tell the entries apart. -/
theorem nodup_departed {map : Fin n} {last : Deployment n S K V} {lines : List (Line K V)}
    (hbalanced : last.Balanced map)
    (hnoted : (account map last.journal).Perm (lines.filter Line.isNoted)) :
    ((lines.filterMap Line.departed?).map Entry.seq).Nodup := by
  have honce := hbalanced.once
  rw [List.map_append] at honce
  have hperm := (hnoted.filterMap Line.departed?).map Entry.seq
  rw [departed_noted] at hperm
  exact hperm.nodup_iff.mp (List.nodup_append.mp honce).1

omit [DecidableEq K] in
theorem evicted_sublist_departed (lines : List (Line K V)) :
    (lines.filterMap Line.evicted?).Sublist (lines.filterMap Line.departed?) := by
  induction lines with
  | nil => exact .slnil
  | cons line rest ih =>
      cases line with
      | left entry departure =>
          cases departure with
          | evicted => exact ih.cons_cons entry
          | replaced | removed | cleared => exact ih.cons entry
      | placed | confirmed | summed => exact ih

omit [DecidableEq K] in
/-- There is one line at most on the departure of an entry. -/
theorem departure_unique {lines : List (Line K V)}
    (h : ((lines.filterMap Line.departed?).map Entry.seq).Nodup) {first second : Entry K V}
    {one other : Departure} (hfirst : .left first one ∈ lines)
    (hsecond : .left second other ∈ lines) (hseq : first.seq = second.seq) : one = other := by
  induction lines with
  | nil => simp at hfirst
  | cons line rest ih =>
      -- if one of the two is the first line, the other one would have its number again in the rest
      have hmem : ∀ {entry : Entry K V} {departure : Departure}, .left entry departure ∈ rest →
          entry.seq ∈ (rest.filterMap Line.departed?).map Entry.seq := fun hentry =>
        List.mem_map_of_mem (List.mem_filterMap.mpr ⟨_, hentry, rfl⟩)
      rcases List.mem_cons.mp hfirst with rfl | hfirst' <;>
        rcases List.mem_cons.mp hsecond with heq | hsecond'
      · exact (Line.left.inj heq).2.symm
      · exact absurd (hseq ▸ hmem hsecond') (List.nodup_cons.mp h).1
      · subst heq
        exact absurd (hseq ▸ hmem hfirst') (List.nodup_cons.mp h).1
      · have hrest := ((List.sublist_cons_self line rest).filterMap Line.departed?).map Entry.seq
        exact ih (h.sublist hrest) hfirst' hsecond'

/-! ## Conservation -/

/-- For all calls that are made on maps that have just been built, one after the other, with hooks
that make calls of their own, say no or panic, however deep: the account of every map balances at
every moment.  Each entry that comes or goes does so in the ledger of one serving, which is either
that of the entry that its own request places, replaces, removes or clears, or a sweep that counts
it.  If no hook that the map consults has anything done with the map, then each pass evicts what was
confirmed in it and nothing else, so an entry is confirmed at most once and leaves in no other
way. -/
theorem entries_leave_once (plan : Plan n S K V) (depth : Nat) (drive : Drive) (clockRuns : Bool)
    (memory : S) (standing : Fin n) (calls : List (Call n K V)) (map : Fin n) :
    let fresh := Deployment.fresh drive clockRuns memory
    let servings := plan.servingsOfCalls (plan.listing depth) (plan.consultation depth) standing
      calls fresh
    let last := (plan.serveCalls (plan.consultation depth) standing calls fresh).2
    let lines := ledgers map servings
    (last.Balanced map ∧
      ∀ serving ∈ servings, ∀ moment ∈ serving.moments,
        moment.before.Balanced map ∧ moment.after.Balanced map) ∧
    (account map last.journal).Perm (lines.filter Line.isNoted) ∧
    (∀ serving ∈ servings, serving.Accounted map) ∧
    ((∀ serving ∈ servings, ∀ moment ∈ serving.moments, moment.Refrains map) →
      lines.filterMap Line.confirmation? =
        (lines.filterMap Line.evicted?).map Entry.confirmation ∧
      ((lines.filterMap Line.evicted?).map Entry.seq).Nodup ∧
      ∀ evicted other departure, .left evicted .evicted ∈ lines → .left other departure ∈ lines →
        other.seq = evicted.seq → departure = .evicted) := by
  intro fresh servings last lines
  -- the account at every moment, and the ledgers that it is made of
  have hbalanced := balanced_of_calls plan depth drive clockRuns memory standing calls map
  have hbooks : Books map fresh lines last :=
    (accrues_books plan map).calls depth standing calls fresh
  have hnoted : (account map last.journal).Perm (lines.filter Line.isNoted) :=
    List.append_nil (lines.filter Line.isNoted) ▸ hbooks
  obtain ⟨-, haccounted⟩ := (accrues_accounted plan map).calls depth standing calls fresh
  -- an entry whose departure was written twice would have its number twice
  have honce := nodup_departed hbalanced.1 hnoted
  refine ⟨hbalanced, hnoted, haccounted, fun hrefrains => ⟨?_, ?_, ?_⟩⟩
  · exact agrees_flatMap fun serving hserving =>
      (haccounted serving hserving).agrees (hrefrains serving hserving)
  · exact honce.sublist ((evicted_sublist_departed lines).map Entry.seq)
  · exact fun evicted other departure hevicted hother hseq =>
      departure_unique honce hother hevicted hseq

/-- One map whose eviction hook says yes to everything. -/
def confirming : Plan 1 Unit Nat Nat where
  settings _ := { policy := .listener fun _ memory => (memory, .answer (.ok true)) }
  enumeration _ := .asStored

theorem onlyAnswers_confirming (asked : Fin 1) :
    (confirming.settings asked).policy.OnlyAnswers := by
  intro hook reaction hreaction memory
  cases hook <;> cases hreaction
  exact ⟨_, rfl⟩

/-- A run in which an entry of 7 is replaced, that of 8 is removed, that of 9 is evicted and the
other one of 7 is cleared when the map is stopped. -/
def everyDeparture : List (Call 1 Nat Nat) :=
  [.ask [] (.map (.put 7 70 .second)), .ask [] (.map (.put 7 71 .second)),
    .ask [] (.map (.put 8 80 .second)), .ask [] (.map (.remove 8)),
    .ask [] (.map (.put 9 90 .zero)), .ask [] (.advance 1), .ask [] (.map .purge),
    .ask [] (.map .start), .ask [] (.map .stop)]

/-- The ledger of a run in which an entry leaves in every way there is. -/
theorem entries_leave_once_confirming :
    let servings := confirming.servingsOfCalls (confirming.listing 1) (confirming.consultation 1) 0
      everyDeparture (.fresh (.byHand false false) false ())
    let lines := ledgers 0 servings
    let last := (confirming.serveCalls (confirming.consultation 1) 0 everyDeparture
      (.fresh (.byHand false false) false ())).2
    let deadline := some ⟨1000000000, by decide⟩
    let replaced : Entry Nat Nat := ⟨7, 70, .second, 0, deadline⟩
    let cleared : Entry Nat Nat := ⟨7, 71, .second, 1, deadline⟩
    let removed : Entry Nat Nat := ⟨8, 80, .second, 2, deadline⟩
    let evicted : Entry Nat Nat := ⟨9, 90, .zero, 3, some .origin⟩
    lines = [.placed replaced, .left replaced .replaced, .placed cleared, .placed removed,
      .left removed .removed, .placed evicted, .confirmed evicted.confirmation,
      .left evicted .evicted, .summed 1 1, .left cleared .cleared] ∧
    (∀ serving ∈ servings, ∀ moment ∈ serving.moments, moment.Refrains 0) ∧
    last.Balanced 0 ∧
    (account 0 last.journal).Perm (lines.filter Line.isNoted) ∧
    lines.filterMap Line.confirmation? = [evicted.confirmation] ∧
    ∀ other departure, .left other departure ∈ lines → other.seq = 3 → departure = .evicted := by
  intro servings lines last deadline replaced cleared removed evicted
  -- what the run comes to is evaluated once, and everything else is told by the theorem
  have hlines : lines = [.placed replaced, .left replaced .replaced, .placed cleared,
      .placed removed, .left removed .removed, .placed evicted, .confirmed evicted.confirmation,
      .left evicted .evicted, .summed 1 1, .left cleared .cleared] := by
    decide +kernel
  have hrefrains : ∀ serving ∈ servings, ∀ moment ∈ serving.moments, moment.Refrains 0 :=
    refrains_calls 1 0 onlyAnswers_confirming 0 everyDeparture _
  obtain ⟨⟨hbalanced, -⟩, hnoted, -, hagrees⟩ :=
    entries_leave_once confirming 1 (.byHand false false) false () 0 everyDeparture 0
  obtain ⟨hconfirmed, -, hunique⟩ := hagrees hrefrains
  have hevicted : lines.filterMap Line.evicted? = [evicted] := by
    rw [hlines]
    rfl
  refine ⟨hlines, hrefrains, hbalanced, hnoted, hconfirmed.trans ?_, ?_⟩
  · exact congrArg (List.map Entry.confirmation) hevicted
  · have hgone : .left evicted .evicted ∈ lines := by
      simp [hlines]
    exact fun other departure hleft hseq => hunique evicted other departure hgone hleft hseq

end ExpiringMap
