import ExpiringMap.Entry

/-!
# When an entry expires

The clock ends after 18446744073709551616 instants, and a timeout may reach far beyond that.  An
entry expires nevertheless as if there were no end: once more time than its timeout has passed since
it was touched, by exact arithmetic, and never before (`expires_after_timeout`).  A deadline that
the clock cannot show is none, and its place among the deadlines is after every instant.
-/

namespace ExpiringMap

/-! ## Deadlines by their place -/

namespace Deadline

theorem passed_iff {deadline : Deadline} {now : Instant} :
    passed deadline now = true ↔ rank deadline < now.ns := by
  have hbounded := now.bounded
  cases deadline with
  | some instant => exact decide_eq_true_iff
  | none =>
      simp only [passed, rank, Bool.false_eq_true, false_iff]
      omega

/-- The place of a deadline is the exact sum, as far as the clock goes. -/
theorem rank_after? (now : Instant) (timeout : Duration) :
    rank (now.after? timeout) = min (now.ns + timeout.ns) 18446744073709551616 := by
  unfold Instant.after?
  split
  · next hfits => exact (Nat.min_eq_left (Nat.le_of_lt hfits)).symm
  · next hover => exact (Nat.min_eq_right (Nat.le_of_not_lt hover)).symm

/-- No reading of the clock tells the exact sum from a deadline that is none. -/
theorem passed_after?_iff {now later : Instant} {timeout : Duration} :
    passed (now.after? timeout) later = true ↔ now.ns + timeout.ns < later.ns := by
  have hbounded := later.bounded
  rw [passed_iff, rank_after?]
  omega

theorem rank_eq_iff {deadline : Deadline} :
    rank deadline = 18446744073709551616 ↔ deadline = none := by
  cases deadline with
  | some instant => simpa [rank] using Nat.ne_of_lt instant.bounded
  | none => simp [rank]

end Deadline

/-! ## Entries that have been touched -/

namespace Entry

variable {K V : Type} {entry : Entry K V} {now later : Instant}

theorem isExpired_iff : entry.isExpired now = true ↔ Deadline.rank entry.deadline < now.ns :=
  Deadline.passed_iff

theorem isExpired_mono (hle : now ≤ later) (h : entry.isExpired now = true) :
    entry.isExpired later = true :=
  isExpired_iff.mpr (Nat.lt_of_lt_of_le (isExpired_iff.mp h) hle)

theorem rank_touch (entry : Entry K V) (now : Instant) :
    Deadline.rank (entry.touch now).deadline =
      min (now.ns + entry.timeout.ns) 18446744073709551616 :=
  Deadline.rank_after? now entry.timeout

theorem isExpired_touch_iff :
    (entry.touch now).isExpired later = true ↔ now.ns + entry.timeout.ns < later.ns :=
  Deadline.passed_after?_iff

theorem deadline_touch_eq_none_iff :
    (entry.touch now).deadline = none ↔ 18446744073709551615 < now.ns + entry.timeout.ns := by
  rw [← Deadline.rank_eq_iff, rank_touch]
  omega

/-- Whoever touches an entry later puts its deadline off, or leaves it where it is. -/
theorem rank_touch_mono (entry : Entry K V) (hle : now ≤ later) :
    Deadline.rank (entry.touch now).deadline ≤ Deadline.rank (entry.touch later).deadline := by
  have hns := Instant.le_def.mp hle
  rw [rank_touch, rank_touch]
  omega

/-- An entry that has been touched has expired once its timeout has passed, in unbounded arithmetic.
So one whose deadline lies beyond the end of the clock, which is none, never expires; none expires
at the instant at which it is touched; an entry that has expired stays so; and one that is touched
later has no earlier deadline. -/
theorem expires_after_timeout (entry : Entry K V) (now : Instant) :
    (∀ instant : Instant,
      (entry.touch now).isExpired instant = true ↔ now.ns + entry.timeout.ns < instant.ns) ∧
    ((entry.touch now).deadline = none ↔ 18446744073709551615 < now.ns + entry.timeout.ns) ∧
    (18446744073709551615 < now.ns + entry.timeout.ns →
      ∀ instant, (entry.touch now).isExpired instant = false) ∧
    (entry.touch now).isExpired now = false ∧
    (∀ instant later, instant ≤ later → (entry.touch now).isExpired instant = true →
      (entry.touch now).isExpired later = true) ∧
    ∀ later, now ≤ later →
      Deadline.rank (entry.touch now).deadline ≤ Deadline.rank (entry.touch later).deadline := by
  refine ⟨fun _ => isExpired_touch_iff, deadline_touch_eq_none_iff, fun hover instant => ?_, ?_,
    fun _ _ => isExpired_mono, fun _ => rank_touch_mono entry⟩
  · have hbounded := instant.bounded
    refine Bool.eq_false_iff.mpr fun hexpired => ?_
    have hpassed := isExpired_touch_iff.mp hexpired
    omega
  · refine Bool.eq_false_iff.mpr fun hexpired => ?_
    have hpassed := isExpired_touch_iff.mp hexpired
    omega

/-- No instant passes a deadline that is the last instant of the clock, and just one passes the
deadline before it. -/
example :
    let entry (timeout : Duration) : Entry Nat Nat := { key := 7, value := 70, timeout, seq := 0 }
    let last : Instant := .clamp 18446744073709551615
    let whole := (entry ⟨18446744073709551615, by decide⟩).touch .origin
    let short := (entry ⟨18446744073709551614, by decide⟩).touch .origin
    whole.deadline = some last ∧ whole.isExpired last = false ∧ short.isExpired last = true := by
  decide

end Entry

end ExpiringMap
