import ExpiringMap.Proofs.Entries.Expiry
import ExpiringMap.Proofs.Pass.Course
import ExpiringMap.Proofs.Reachable

/-!
# Whom a pass tells of what

A pass whose screenings do not panic reads the clock once, shows the screening hook every entry
that has expired by then, and afterwards tells the eviction hook of every entry that was let
through, the earlier deadline first (`pass_notifies_in_order`).  The order is strict although
deadlines may be equal, since the sequence numbers of a reachable store tell its entries apart.
-/

namespace ExpiringMap

variable {n : Nat} {S K V : Type}

/-- Whether an entry is taken strictly before another one. -/
def Entry.Before (first second : Entry K V) : Prop :=
  Deadline.rank first.deadline < Deadline.rank second.deadline ∨
    Deadline.rank first.deadline = Deadline.rank second.deadline ∧ first.seq < second.seq

/-- Whether the numbers of entries tell them apart. -/
def Entry.Apart (entries : List (Entry K V)) : Prop :=
  ∀ first ∈ entries, ∀ second ∈ entries, first.seq = second.seq → first = second

namespace Entry

/-- What has expired comes before what has not. -/
theorem notAfter_of_isExpired {first second : Entry K V} {now : Instant}
    (hfirst : first.isExpired now = true) (hsecond : second.isExpired now = false) :
    first.notAfter second = true := by
  have hrank := isExpired_iff.mp hfirst
  have hrank' := mt isExpired_iff.mpr (Bool.eq_false_iff.mp hsecond)
  exact notAfter_iff.mpr (.inl (by omega))

section Order

variable {entries others : List (Entry K V)}

/-- Entries whose numbers tell them apart are in strict order once they are in order. -/
theorem Apart.pairwise_before (h : Apart entries) (hnodup : entries.Nodup) :
    (inOrder entries).Pairwise Before := by
  have hperm := inOrder_perm entries
  have hdistinct : (inOrder entries).Pairwise fun first second => first.seq ≠ second.seq := by
    refine (hperm.nodup_iff.mpr hnodup).imp_of_mem fun {first second} hfirst hsecond hne heq => ?_
    exact hne (h first (hperm.mem_iff.mp hfirst) second (hperm.mem_iff.mp hsecond) heq)
  refine ((pairwise_inOrder entries).and hdistinct).imp fun {first second} hboth => ?_
  have horder := notAfter_iff.mp hboth.1
  have hne := hboth.2
  unfold Before
  omega

theorem Apart.subset (h : Apart entries) (hsubset : others ⊆ entries) : Apart others :=
  fun first hfirst second hsecond => h first (hsubset hfirst) second (hsubset hsecond)

theorem Apart.filter (h : Apart entries) (keep : Entry K V → Bool) : Apart (entries.filter keep) :=
  h.subset (List.filter_sublist.subset)

/-- Entries whose numbers tell them apart can be put in order in one way only. -/
theorem Apart.eq_inOrder (h : Apart entries) (hperm : others.Perm entries)
    (hordered : others.Pairwise (·.notAfter · = true)) : others = inOrder entries := by
  refine (hperm.trans (inOrder_perm entries).symm).eq_of_pairwise
    (fun first second hfirst hsecond hle hge => ?_) hordered (pairwise_inOrder entries)
  have hseq : first.seq = second.seq := by
    rw [notAfter_iff] at hle hge
    omega
  exact h first (hperm.mem_iff.mp hfirst) second ((inOrder_perm entries).mem_iff.mp hsecond) hseq

/-- It does not matter in which order the entries were found. -/
theorem Apart.inOrder_eq (h : Apart entries) (hperm : others.Perm entries) :
    inOrder others = inOrder entries :=
  h.eq_inOrder ((inOrder_perm others).trans hperm) (pairwise_inOrder others)

theorem Apart.filter_inOrder (h : Apart entries) (keep : Entry K V → Bool) :
    (inOrder entries).filter keep = inOrder (entries.filter keep) :=
  (h.filter keep).eq_inOrder ((inOrder_perm entries).filter keep)
    ((pairwise_inOrder entries).filter keep)

/-- Entries none of which comes after any of some others are put in order before them. -/
theorem Apart.inOrder_append (h : Apart (entries ++ others))
    (hbefore : ∀ first ∈ entries, ∀ second ∈ others, first.notAfter second = true) :
    inOrder entries ++ inOrder others = inOrder (entries ++ others) := by
  refine h.eq_inOrder ((inOrder_perm entries).append (inOrder_perm others)) ?_
  refine List.pairwise_append.mpr ⟨pairwise_inOrder entries, pairwise_inOrder others, ?_⟩
  intro first hfirst second hsecond
  exact hbefore first ((inOrder_perm entries).mem_iff.mp hfirst) second
    ((inOrder_perm others).mem_iff.mp hsecond)

end Order

end Entry

theorem Store.Numbered.apart [DecidableEq K] {store : Store K V} {placed : List (Entry K V)}
    (h : store.Numbered placed) : Entry.Apart store.entries :=
  fun _ hfirst _ hsecond => h.eq_of_seq_eq hfirst hsecond

/-- Whether an entry was placed in the store of a map before another one, both of them touched since
at most. -/
def PlacedBefore (map : Fin n) (journal : List (Event n K V)) (first second : Entry K V) : Prop :=
  ∃ later between earlier placed placed', first.Stems placed ∧ second.Stems placed' ∧
    placings map journal = later ++ placed' :: between ++ placed :: earlier

/-- Of two entries in a store the smaller number is the one that was placed earlier. -/
theorem Store.Numbered.placedBefore {map : Fin n} {journal : List (Event n K V)}
    {store : Store K V} (h : store.Numbered (placings map journal)) {first second : Entry K V}
    (hfirst : first ∈ store.entries) (hsecond : second ∈ store.entries)
    (hseq : first.seq < second.seq) : PlacedBefore map journal first second := by
  obtain ⟨placed, hplaced, hstems⟩ := h.stems first hfirst
  obtain ⟨placed', hplaced', hstems'⟩ := h.stems second hsecond
  obtain ⟨later, before, heq⟩ := List.append_of_mem hplaced'
  -- numbers go down along the list, so the smaller one comes after the larger one
  have hless : placed.seq < placed'.seq := hstems.seq ▸ hstems'.seq ▸ hseq
  have hearlier : placed ∈ before := by
    have hdescending := h.descending
    rw [heq, List.pairwise_append] at hdescending
    rw [heq, List.mem_append, List.mem_cons] at hplaced
    rcases hplaced with hlater | rfl | hbefore
    · have hmore := hdescending.2.2 placed hlater placed' (List.mem_cons_self ..)
      omega
    · omega
    · exact hbefore
  obtain ⟨between, earlier, rfl⟩ := List.append_of_mem hearlier
  exact ⟨later, between, earlier, placed, placed', hstems, hstems', by simp [heq]⟩

namespace Operation

open Program

variable [DecidableEq K]

/-- Whether a pass consults the hooks of a map as it should, given the store that it found. -/
structure Consults (map : Fin n) (store : Store K V) (moments : List (Moment n S K V))
    (now : Instant) (screened notified : List (Entry K V × Outcome Bool)) : Prop where
  /-- The clock is read once, unless there is nothing to be found anyway. -/
  reading : readings moments = if store.isEmpty then [] else [now]
  /-- All screenings come before the first notification. -/
  consulted : consultations moments = screenings map screened ++ notifications map notified
  /-- The screening hook is shown what has expired. -/
  found : (screened.map Prod.fst).Perm (store.expired now)
  /-- The eviction hook is told of what has been let through. -/
  candidates : (notified.map Prod.fst).Perm (agreed screened)
  ascending : (notified.map Prod.fst).Pairwise Entry.Before

section Ascending

variable {found : List (Entry K V)} {screened notified : List (Entry K V × Outcome Bool)}
  {result : Outcome (List (Entry K V) × List (Entry K V))} {store : Store K V} {now : Instant}

theorem ComesTo.ascending (h : ComesTo found screened notified result)
    (hfound : found.Perm (store.expired now)) (hshort : screened.map Prod.fst <+: found)
    {placed : List (Entry K V)} (hnumbered : store.Numbered placed) :
    (notified.map Prod.fst).Pairwise Entry.Before := by
  have hmem : ∀ pair ∈ notified, pair.1 ∈ store.entries := fun pair hpair =>
    h.mem_entries hfound hshort (List.mem_append_right screened hpair)
  rcases result with panic | ⟨candidates, confirmed⟩
  · obtain ⟨rfl, -⟩ := h
    exact .nil
  · obtain ⟨hall, -, rfl, hnotified, -⟩ := h
    -- an entry that was let through was found, and what was found has no entry twice
    have hnodup : (agreed screened).Nodup := by
      have hscreened := hfound.nodup_iff.mpr (Store.nodup_expired _ _)
      exact (hall ▸ hscreened).sublist (sublist_agreed screened)
    have hfrom : agreed screened ⊆ store.entries := by
      intro entry hentry
      rw [← (Entry.inOrder_perm _).mem_iff, ← hnotified] at hentry
      obtain ⟨pair, hpair, rfl⟩ := List.mem_map.mp hentry
      exact hmem pair hpair
    rw [hnotified]
    exact (hnumbered.apart.subset hfrom).pairwise_before hnodup

end Ascending

/-- Whether a pass tells the eviction hook of entries with equal deadlines in the order in which
they were placed, given the journal that it found. -/
def NotifiesAsPlaced (map : Fin n) (journal : List (Event n K V))
    (moments : List (Moment n S K V)) : Prop :=
  ∃ screened notified : List (Entry K V × Outcome Bool),
    consultations moments = screenings map screened ++ notifications map notified ∧
      (notified.map Prod.fst).Pairwise fun first second =>
        first.deadline = second.deadline → PlacedBefore map journal first second

variable {plan : Plan n S K V} {deployment : Deployment n S K V}

/-- Of entries with equal deadlines a pass tells the eviction hook in the order in which they were
placed, whatever the hooks do meanwhile. -/
theorem pass_notifies_as_placed (plan : Plan n S K V) (hnumbered : deployment.Numbered)
    (consultation : Consultation n S K V) (map : Fin n) :
    NotifiesAsPlaced map deployment.journal
      ((pass map).trace (plan.respond consultation) deployment) := by
  obtain ⟨found, screened, notified, hconsulted, -, hfound, hshort, hresult⟩ :=
    inquiry_course plan consultation map deployment
  refine ⟨screened, notified, (consultations_pass ..).trans hconsulted, ?_⟩
  have hascending := hresult.ascending hfound hshort (hnumbered map)
  rw [List.pairwise_map] at hascending ⊢
  refine hascending.imp_of_mem fun {first second} hfirst hsecond hbefore hdeadline => ?_
  -- with equal deadlines the order can only be that of the numbers
  have hseq : first.1.seq < second.1.seq := by
    rcases hbefore with hrank | ⟨-, hseq⟩
    · rw [hdeadline] at hrank
      omega
    · exact hseq
  exact (hnumbered map).placedBefore
    (hresult.mem_entries hfound hshort (List.mem_append_right screened hfirst))
    (hresult.mem_entries hfound hshort (List.mem_append_right screened hsecond)) hseq

/-- A pass in which no screening panics shows every expired entry to the screening hook, once, and
then tells the eviction hook of every entry that was let through, once and in strictly ascending
order, whatever the hooks do meanwhile and however deep their calls are nested. -/
theorem pass_notifies_in_order (hreachable : plan.Reachable deployment) (depth : Nat)
    (map : Fin n)
    (hreturns : ∀ entry panic, (map, .screening entry, .error panic) ∉ consultations
      ((pass map).trace (plan.respond (plan.consultation depth)) deployment)) :
    ∃ (now : Instant) (screened notified : List (Entry K V × Outcome Bool)),
      Consults map (deployment.state map).store
        ((pass map).trace (plan.respond (plan.consultation depth)) deployment) now screened
        notified := by
  obtain ⟨found, screened, notified, hconsulted, hreading, hfound, hshort, hresult⟩ :=
    inquiry_course plan (plan.consultation depth) map deployment
  rw [consultations_pass, hconsulted] at hreturns
  have hascending := hresult.ascending hfound hshort (hreachable.numbered map)
  refine ⟨(deployment.onClock .read).1, screened, notified, ?_⟩
  generalize ((inquiry map).run _ deployment).1 = result at hresult
  rcases result with panic | ⟨candidates, confirmed⟩
  · obtain ⟨-, entry, hentry⟩ := hresult
    refine absurd (List.mem_append_left _ ?_) (hreturns entry panic)
    exact List.mem_map.mpr ⟨_, hentry, rfl⟩
  · -- all entries have been screened, and each part is told by what the inquiry comes to
    obtain ⟨hall, -, rfl, hnotified, -⟩ := hresult
    constructor
    case reading => exact (readings_pass ..).trans hreading
    case consulted => exact (consultations_pass ..).trans hconsulted
    case found => exact hall ▸ hfound
    case candidates => exact hnotified ▸ Entry.inOrder_perm _
    case ascending => exact hascending

/-- The pass over `crowded` tells the eviction hook of four entries, neither in the order in which
they are listed nor in that in which they were put in. -/
theorem pass_notifies_in_order_crowded :
    (∀ entry panic, (0, .screening entry, .error panic) ∉ consultations passOverCrowded) ∧
    ∃ (now : Instant) (screened notified : List (Entry Nat Nat × Outcome Bool)),
      Consults 0 (crowded.state 0).store passOverCrowded now screened notified ∧
        screened = crowdedScreened ∧
        notifications (0 : Fin 1) notified = notifications 0 crowdedNotified := by
  have hreturns : ∀ entry panic,
      (0, .screening entry, .error panic) ∉ consultations passOverCrowded := by
    intro entry panic
    rw [consultations_passOverCrowded]
    simp [crowdedScreened, crowdedNotified]
  obtain ⟨now, screened, notified, h⟩ := pass_notifies_in_order reachable_crowded 1 0 hreturns
  exact ⟨hreturns, now, screened, notified, h,
    screenings_append_inj (h.consulted.symm.trans consultations_passOverCrowded)⟩

end Operation

end ExpiringMap
