import ExpiringMap.Proofs.Operation.Moments
import Mathlib.Data.List.Nodup

/-!
# The candidates of a pass

A pass shows what it has found to the screening hook.  What the hook says yes to are the
candidates; unless a screening panics, the eviction hook is told of them in order, and those that
it says yes to are confirmed (`ComesTo`).  What was found has no entry twice, so the verdict on an
entry is one, and an entry that either hook has not said yes to is not confirmed.
-/

namespace ExpiringMap.Operation

variable {n : Nat} {K V : Type}

/-! ## What the hooks have said -/

section Said

variable (map : Fin n) (entry : Entry K V) (verdict : Outcome Bool)
  (consulted : List (Entry K V × Outcome Bool))

/-- The entries that a hook said yes to. -/
def agreed : List (Entry K V) :=
  (consulted.filter fun pair => pair.2.isYes).map Prod.fst

/-- The consultations of the screening hook on some entries. -/
def screenings : List (Fin n × Hook K V × Outcome Bool) :=
  consulted.map fun (entry, verdict) => (map, .screening entry, verdict)

/-- The consultations of the eviction hook on some entries. -/
def notifications : List (Fin n × Hook K V × Outcome Bool) :=
  consulted.map fun (entry, verdict) => (map, .eviction entry.key entry.value, verdict)

@[simp] theorem agreed_nil : agreed ([] : List (Entry K V × Outcome Bool)) = [] := rfl

@[simp] theorem agreed_cons :
    agreed ((entry, verdict) :: consulted) =
      if verdict.isYes then entry :: agreed consulted else agreed consulted := by
  unfold agreed
  rw [List.filter_cons]
  split <;> rfl

@[simp] theorem screenings_nil :
    screenings map ([] : List (Entry K V × Outcome Bool)) = [] := rfl

@[simp] theorem screenings_cons :
    screenings map ((entry, verdict) :: consulted) =
      (map, .screening entry, verdict) :: screenings map consulted := rfl

@[simp] theorem notifications_nil :
    notifications map ([] : List (Entry K V × Outcome Bool)) = [] := rfl

@[simp] theorem notifications_cons :
    notifications map ((entry, verdict) :: consulted) =
      (map, .eviction entry.key entry.value, verdict) :: notifications map consulted := rfl

/-- A hook said yes to those entries of which it answered so. -/
theorem mem_agreed : entry ∈ agreed consulted ↔ (entry, .ok true) ∈ consulted := by
  induction consulted with
  | nil => simp
  | cons pair rest ih =>
      obtain ⟨other, verdict⟩ := pair
      rw [agreed_cons, List.mem_cons, Prod.mk.injEq, ← ih]
      rcases verdict with panic | _ | _ <;> simp [Outcome.isYes]

/-- Where every verdict depends on the entry alone, it is a filter what a hook does. -/
theorem agreed_eq_filter (decide : Entry K V → Outcome Bool)
    (h : ∀ pair ∈ consulted, pair.2 = decide pair.1) :
    agreed consulted = (consulted.map Prod.fst).filter fun entry => (decide entry).isYes := by
  unfold agreed
  rw [List.filter_map]
  exact congrArg _ (List.filter_congr fun pair hpair => by rw [h pair hpair, Function.comp_apply])

end Said

/-- Hooks are consulted of the map whose pass it is. -/
theorem map_of_mem_consultations {screened notified : List (Entry K V × Outcome Bool)}
    {map other : Fin n} {hook : Hook K V} {verdict : Outcome Bool}
    (h : (other, hook, verdict) ∈ screenings map screened ++ notifications map notified) :
    other = map := by
  rcases List.mem_append.mp h with h | h <;> obtain ⟨pair, -, heq⟩ := List.mem_map.mp h
  · exact (congrArg Prod.fst heq).symm
  · exact (congrArg Prod.fst heq).symm

/-- The consultations of a pass tell what was screened, and of what the eviction hook was told. -/
theorem screenings_append_inj {map : Fin n}
    {screened screened' notified notified' : List (Entry K V × Outcome Bool)}
    (h : screenings map screened ++ notifications map notified =
      screenings map screened' ++ notifications map notified') :
    screened = screened' ∧ notifications map notified = notifications map notified' := by
  -- no notification is a screening, so both lists of screenings end at the same place
  induction screened generalizing screened' with
  | nil =>
      cases screened' with
      | nil => exact ⟨rfl, h⟩
      | cons pair rest => cases notified <;> simp [screenings, notifications] at h
  | cons pair rest ih =>
      cases screened' with
      | nil => cases notified' <;> simp [screenings, notifications] at h
      | cons other rest' =>
          obtain ⟨hhead, htail⟩ := List.cons.inj h
          obtain ⟨rfl, hnotified⟩ := ih htail
          refine ⟨congrArg (· :: rest) ?_, hnotified⟩
          simpa [Prod.ext_iff] using hhead

/-- Whether an inquiry that found these entries and had these answers from the hooks comes to that
result: to the candidates in order and to those that were confirmed, or to the panic of a
screening. -/
def ComesTo (found : List (Entry K V)) (screened notified : List (Entry K V × Outcome Bool)) :
    Outcome (List (Entry K V) × List (Entry K V)) → Prop
  | .ok (candidates, confirmed) =>
      screened.map Prod.fst = found ∧ (∀ pair ∈ screened, pair.2.isOk = true) ∧
        candidates = Entry.inOrder (agreed screened) ∧ notified.map Prod.fst = candidates ∧
        confirmed = agreed notified
  | .error panic => notified = [] ∧ ∃ entry, (entry, .error panic) ∈ screened

/-- What the eviction hook has confirmed, given what an inquiry has come to. -/
def confirmedBy : Outcome (List (Entry K V) × List (Entry K V)) → List (Entry K V)
  | .error _ => []
  | .ok (_, confirmed) => confirmed

section Candidates

variable {found : List (Entry K V)} {screened notified : List (Entry K V × Outcome Bool)}
  {result : Outcome (List (Entry K V) × List (Entry K V))}

/-- What the eviction hook is told of is what the screening hook let through. -/
theorem ComesTo.perm (h : ComesTo found screened notified result) :
    (notified.map Prod.fst).Perm (agreed screened) ∨ notified = [] := by
  rcases result with panic | ⟨candidates, confirmed⟩
  · exact .inr h.1
  · obtain ⟨-, -, rfl, hnotified, -⟩ := h
    exact .inl (hnotified ▸ Entry.inOrder_perm _)

theorem ComesTo.mem_screened (h : ComesTo found screened notified result)
    {pair : Entry K V × Outcome Bool} (hpair : pair ∈ notified) :
    (pair.1, .ok true) ∈ screened := by
  rcases h.perm with hperm | rfl
  · exact (mem_agreed ..).mp (hperm.mem_iff.mp (List.mem_map_of_mem hpair))
  · simp at hpair

theorem sublist_agreed (consulted : List (Entry K V × Outcome Bool)) :
    (agreed consulted).Sublist (consulted.map Prod.fst) :=
  List.filter_sublist.map _

theorem ComesTo.nodup_notified (h : ComesTo found screened notified result)
    (hscreened : (screened.map Prod.fst).Nodup) : (notified.map Prod.fst).Nodup := by
  rcases h.perm with hperm | rfl
  · exact hperm.nodup_iff.mpr (hscreened.sublist (sublist_agreed screened))
  · exact .nil

/-- A hook that is shown every entry once gives one verdict on each. -/
theorem verdict_unique {consulted : List (Entry K V × Outcome Bool)}
    (hnodup : (consulted.map Prod.fst).Nodup) {entry : Entry K V} {first second : Outcome Bool}
    (hfirst : (entry, first) ∈ consulted) (hsecond : (entry, second) ∈ consulted) :
    first = second :=
  congrArg Prod.snd (List.inj_on_of_nodup_map hnodup hfirst hsecond rfl)

theorem ComesTo.mem_fst_screened (h : ComesTo found screened notified result)
    {pair : Entry K V × Outcome Bool} (hpair : pair ∈ screened ++ notified) :
    pair.1 ∈ screened.map Prod.fst := by
  rcases List.mem_append.mp hpair with hpair | hpair
  · exact List.mem_map_of_mem hpair
  · exact List.mem_map.mpr ⟨_, h.mem_screened hpair, rfl⟩

theorem ComesTo.confirmedBy_subset (h : ComesTo found screened notified result) :
    confirmedBy result ⊆ agreed notified := by
  rcases result with panic | ⟨candidates, confirmed⟩
  · exact List.nil_subset _
  · exact h.2.2.2.2 ▸ List.Subset.refl _

/-- An entry that either hook did not say yes to is not confirmed. -/
theorem ComesTo.not_mem_agreed (h : ComesTo found screened notified result)
    (hnodup : (screened.map Prod.fst).Nodup) {entry : Entry K V} {verdict : Outcome Bool}
    (hpair : (entry, verdict) ∈ screened ++ notified) (hno : verdict.isYes = false) :
    entry ∉ agreed notified := by
  intro hagreed
  have hconfirmed := (mem_agreed ..).mp hagreed
  have hyes : verdict = .ok true := by
    rcases List.mem_append.mp hpair with hpair | hpair
    · exact verdict_unique hnodup hpair (h.mem_screened hconfirmed)
    · exact verdict_unique (h.nodup_notified hnodup) hpair hconfirmed
  rw [hyes] at hno
  exact absurd hno (by decide)

theorem ComesTo.mem_entries (h : ComesTo found screened notified result) {store : Store K V}
    {now : Instant} (hfound : found.Perm (store.expired now))
    (hshort : screened.map Prod.fst <+: found) {pair : Entry K V × Outcome Bool}
    (hpair : pair ∈ screened ++ notified) : pair.1 ∈ store.entries := by
  have hmem := hshort.subset (h.mem_fst_screened hpair)
  exact (List.mem_filter.mp (hfound.mem_iff.mp hmem)).1

end Candidates

end ExpiringMap.Operation
