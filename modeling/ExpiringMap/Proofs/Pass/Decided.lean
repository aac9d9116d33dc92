import ExpiringMap.Proofs.Pass.Course

/-!
# Passes whose hooks only decide

Hooks may be plain functions of what they are shown, which make no calls.  They may still remember
things, as long as no verdict depends on it.  A pass of such hooks is one filter: it takes out the
expired entries that both hooks say yes to, and it does not end in a panic (`pass_decided`).
-/

namespace ExpiringMap

variable {n : Nat} {S K V α : Type}

/-- Verdicts that depend on nothing but what the hooks are shown.  Only the eviction hook may
panic. -/
structure Verdicts (K V : Type) where
  valid : K → V → Duration → Bool
  confirms : K → V → Outcome Bool

namespace Verdicts

variable (verdicts : Verdicts K V)

def on : Hook K V → Outcome Bool
  | .screening entry => .ok (verdicts.valid entry.key entry.value entry.timeout)
  | .eviction key value => verdicts.confirms key value

/-- Whether both hooks say yes. -/
def evicts (key : K) (value : V) (timeout : Duration) : Bool :=
  verdicts.valid key value timeout && (verdicts.confirms key value).isYes

end Verdicts

/-- Whether the hooks of a policy make no calls and answer with these verdicts, whatever they
remember.  A hook that the policy does not have says yes. -/
def Policy.Decides (policy : Policy n S K V) (verdicts : Verdicts K V) : Prop :=
  ∀ hook, match policy.reaction? hook with
    | none => verdicts.on hook = .ok true
    | some reaction => ∀ memory, (reaction hook memory).2 = .answer (verdicts.on hook)

section Consulting

variable [DecidableEq K] {plan : Plan n S K V} {map : Fin n} {verdicts : Verdicts K V}

/-- Hooks that only decide leave all maps as they are. -/
theorem consult_decided (h : (plan.settings map).policy.Decides verdicts) (depth : Nat)
    (hook : Hook K V) (deployment : Deployment n S K V) :
    (plan.consult (plan.consultation (depth + 1)) map hook deployment).1 = verdicts.on hook ∧
      ∀ other, (plan.consult (plan.consultation (depth + 1)) map hook deployment).2.state other =
        deployment.state other := by
  have hhook := h hook
  unfold Plan.consult Plan.enter
  cases hreaction : (plan.settings map).policy.reaction? hook with
  | none =>
      rw [hreaction] at hhook
      exact ⟨hhook.symm, fun _ => rfl⟩
  | some reaction =>
      rw [hreaction] at hhook
      simp only [Plan.consultation, hhook, Script.run]
      exact ⟨trivial, fun _ => rfl⟩

/-- A consultation in the course of an operation is answered as the hook answers it. -/
theorem consult_of_mem_consultations {consultation : Consultation n S K V}
    {operation : Operation n K V α} {deployment : Deployment n S K V} {hook : Hook K V}
    {verdict : Outcome Bool}
    (h : (map, hook, verdict) ∈
      consultations (operation.trace (plan.respond consultation) deployment)) :
    ∃ before, (plan.consult consultation map hook before).1 = verdict := by
  obtain ⟨moment, hmoment, hconsulted⟩ := List.mem_filterMap.mp h
  have hrespond := Program.respond_of_mem_trace _ hmoment
  obtain ⟨act | ⟨asked, shown⟩, answer, before, after⟩ := moment
  · simp [Moment.consulted?] at hconsulted
  · simp only [Moment.consulted?, Option.some.injEq, Prod.mk.injEq] at hconsulted
    obtain ⟨rfl, rfl, rfl⟩ := hconsulted
    exact ⟨before, congrArg Prod.fst hrespond⟩

end Consulting

namespace Operation

open Program

variable [DecidableEq K] {plan : Plan n S K V} {map : Fin n} {verdicts : Verdicts K V}

/-- Hooks that only decide do not change a store up to the last notification. -/
theorem store_inquiry_decided (h : (plan.settings map).policy.Decides verdicts) (depth : Nat)
    (deployment : Deployment n S K V) :
    (((inquiry map).run (plan.respond (plan.consultation (depth + 1))) deployment).2.state
      map).store = (deployment.state map).store := by
  obtain ⟨found, screened, notified, hconsulted, -⟩ :=
    inquiry_course plan (plan.consultation (depth + 1)) map deployment
  refine run_eq_of_trace _ (fun after : Deployment n S K V => (after.state map).store) _
    fun moment hmoment => ?_
  have hrespond := respond_of_mem_trace _ hmoment
  by_cases hact : moment.act.IsAct
  · exact store_of_leavesStores (leavesStores_inquiry map) hmoment hact map
  · obtain ⟨act | ⟨other, hook⟩, verdict, before, after⟩ := moment
    · exact absurd trivial hact
    · have hmem : (other, hook, verdict) ∈ screenings map screened ++ notifications map notified :=
        hconsulted ▸ List.mem_filterMap.mpr ⟨_, hmoment, rfl⟩
      obtain rfl := map_of_mem_consultations hmem
      have hafter : (plan.consult (plan.consultation (depth + 1)) other hook before).2 = after :=
        congrArg Prod.snd hrespond
      simp only [← hafter, (consult_decided h depth hook before).2]

theorem run_conclusion {consultation : Consultation n S K V}
    (result : Outcome (List (Entry K V) × List (Entry K V))) (deployment : Deployment n S K V) :
    ((conclusion map result).run (plan.respond consultation) deployment).1 =
      result.map fun _ => () := by
  rcases result with panic | ⟨_ | ⟨first, others⟩, confirmed⟩ <;> simp [conclusion, Except.map]

/-- Hooks that only decide give these verdicts in the course of a pass. -/
theorem verdicts_of_consultations (h : (plan.settings map).policy.Decides verdicts) {depth : Nat}
    {deployment : Deployment n S K V} {operation : Operation n K V α}
    {screened notified : List (Entry K V × Outcome Bool)}
    (hconsulted : consultations
        (operation.trace (plan.respond (plan.consultation (depth + 1))) deployment) =
      screenings map screened ++ notifications map notified) :
    (∀ pair ∈ screened, pair.2 = verdicts.on (.screening pair.1)) ∧
      ∀ pair ∈ notified, pair.2 = verdicts.confirms pair.1.key pair.1.value := by
  have hverdict : ∀ hook verdict,
      (map, hook, verdict) ∈ screenings map screened ++ notifications map notified →
        verdict = verdicts.on hook := by
    intro hook verdict hmem
    obtain ⟨before, heq⟩ := consult_of_mem_consultations (hconsulted ▸ hmem)
    exact heq.symm.trans (consult_decided h depth hook before).1
  refine ⟨fun pair hpair => ?_, fun pair hpair => ?_⟩
  · exact hverdict _ _ (List.mem_append_left _ (List.mem_map_of_mem hpair))
  · exact hverdict _ _ (List.mem_append_right _ (List.mem_map_of_mem hpair))

omit [DecidableEq K] in
theorem mem_agreed_decided {found : List (Entry K V)}
    {screened notified : List (Entry K V × Outcome Bool)}
    {result : List (Entry K V) × List (Entry K V)}
    (hresult : ComesTo found screened notified (.ok result))
    (hscreened : ∀ pair ∈ screened, pair.2 = verdicts.on (.screening pair.1))
    (hnotified : ∀ pair ∈ notified, pair.2 = verdicts.confirms pair.1.key pair.1.value)
    (entry : Entry K V) :
    entry ∈ agreed notified ↔
      entry ∈ found ∧ verdicts.evicts entry.key entry.value entry.timeout = true := by
  obtain ⟨hall, -, hcandidates, hinTurn, -⟩ := hresult
  rw [agreed_eq_filter notified (fun entry => verdicts.confirms entry.key entry.value) hnotified,
    hinTurn, hcandidates, List.mem_filter, (Entry.inOrder_perm _).mem_iff,
    agreed_eq_filter screened (fun entry => verdicts.on (.screening entry)) hscreened, hall,
    List.mem_filter, Verdicts.evicts, Bool.and_eq_true, and_assoc]
  rfl

/-- A pass whose hooks only decide takes out the expired entries that both hooks say yes to. -/
theorem pass_decided (h : (plan.settings map).policy.Decides verdicts) (depth : Nat)
    (deployment : Deployment n S K V) :
    let now := (deployment.onClock .read).1
    let left := plan.run (depth + 1) (pass map) deployment
    left.1 = .ok () ∧
      (left.2.state map).store = (deployment.state map).store.restrict fun entry =>
        !(entry.isExpired now && verdicts.evicts entry.key entry.value entry.timeout) := by
  intro now left
  obtain ⟨found, screened, notified, hconsulted, -, hfound, -, hresult⟩ :=
    inquiry_course plan (plan.consultation (depth + 1)) map deployment
  obtain ⟨hscreened, hnotified⟩ := verdicts_of_consultations h hconsulted
  set result := ((inquiry map).run (plan.respond (plan.consultation (depth + 1))) deployment).1
    with hdef
  have hrun : left = (conclusion map result).run (plan.respond (plan.consultation (depth + 1)))
      ((inquiry map).run (plan.respond (plan.consultation (depth + 1))) deployment).2 := by
    simp only [left, Plan.run, pass_eq, run_bind, hdef]
  -- the conclusion finds the store as the pass found it
  obtain ⟨hstore, -⟩ := conclusion_course plan (plan.consultation (depth + 1)) map hresult
    ((inquiry map).run (plan.respond (plan.consultation (depth + 1))) deployment).2
  rw [store_inquiry_decided h depth deployment] at hstore
  rw [hrun]
  clear_value result
  rcases result with panic | result
  · -- no screening panics
    obtain ⟨-, entry, hentry⟩ := hresult
    exact absurd (hscreened _ hentry) (by simp [Verdicts.on])
  have hmem := mem_agreed_decided hresult hscreened hnotified
  have hfrom : ∀ candidate ∈ agreed notified, candidate ∈ (deployment.state map).store.entries := by
    intro candidate hcandidate
    exact (List.mem_filter.mp (hfound.mem_iff.mp ((hmem candidate).mp hcandidate).1)).1
  refine ⟨run_conclusion .., hstore.trans (Store.restrict_congr fun entry hentry => ?_)⟩
  simp [Store.tag_mem_iff hfrom hentry, hmem, hfound.mem_iff, Store.expired, hentry, now]

end Operation

end ExpiringMap
