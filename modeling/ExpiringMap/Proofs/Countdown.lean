import ExpiringMap.Proofs.Reachable

/-!
# Since when entries count down

The journal tells when the countdown of an entry is started: when the entry is placed, and again
whenever it is read.  What everything in a deployment maintains is that an entry is found as it was,
unless its countdown has been started in the meantime (`stepwise_dates`).  Since whatever is placed
has a new number, an entry that still has its old number has not been placed but, if it is not as
it was, read (`eq_or_touched`).
-/

namespace ExpiringMap

variable {n : Nat} {S K V : Type}

/-- Whether among some events on a map the countdown of an entry was started, so that it has come to
the deadline that it has now. -/
def Entry.StartedAmong (entry : Entry K V) (events : List (MapEvent K V)) : Prop :=
  ∃ now, entry.deadline = now.after? entry.timeout ∧
    (.placed entry now ∈ events ∨ .touched entry now ∈ events)

/-- An act leaves an entry as it was, or starts its countdown. -/
theorem MapAct.mem_or_start [DecidableEq K] (act : MapAct K V) (state : MapState K V)
    {entry : Entry K V} (hentry : entry ∈ (act.apply state).store.entries) :
    entry ∈ state.store.entries ∨ entry.StartedAmong (act.events state) := by
  have hplace : ∀ (placed : Entry K V) (now : Instant),
      entry ∈ (state.store.place (placed.touch now)).entries →
        entry ∈ state.store.entries ∨ entry = placed.touch now := by
    intro placed now hmem
    rcases List.mem_cons.mp hmem with rfl | hmem
    · exact .inr rfl
    · exact .inl (List.mem_filter.mp hmem).1
  cases act with
  | read key now =>
      obtain ⟨old, hold, rfl⟩ := List.mem_map.mp hentry
      by_cases hkey : old.key = key
      · have hlookup := Store.lookup_eq_some_iff.mpr ⟨hold, hkey⟩
        refine .inr ⟨now, ?_, .inr ?_⟩
        · simp only [if_pos hkey, Entry.touch]
        · simp [events, hlookup, hkey]
      · exact .inl (by rwa [if_neg hkey])
  | insert placed now =>
      refine (hplace placed now hentry).imp_right ?_
      rintro rfl
      refine ⟨now, rfl, .inl ?_⟩
      simp only [events]
      split <;> simp
  | insertIfAbsent placed now =>
      simp only [apply, Store.insertIfAbsent, Entry.touch_key] at hentry
      split at hentry
      · exact .inl hentry
      · next habsent =>
        refine (hplace placed now hentry).imp_right ?_
        rintro rfl
        exact ⟨now, rfl, .inl (by simp [events, habsent])⟩
  | remove key => exact .inl (List.mem_filter.mp hentry).1
  | removeIfSame key seq =>
      simp only [apply, (state.store.removeIfSame_eq key seq).1] at hentry
      exact .inl (List.mem_filter.mp hentry).1
  | clear => simp [apply, Store.clear] at hentry
  | borrow | hold | takeHandle =>
      simp only [apply] at hentry
      split at hentry <;> exact .inl hentry
  | lock | unlock | reserve | scan | size | readPhase | setPhase | shift | keepJob | takeJob | letGo
  | addHandle => exact .inl hentry

/-! ## What has become of the entries of a deployment -/

namespace Deployment

/-- Whether an entry that is found in a later deployment has been there before just as it is, or
has had its countdown started in the meantime. -/
def Dates (earlier later : Deployment n S K V) : Prop :=
  ∃ events, later.journal = events ++ earlier.journal ∧
    ∀ map, ∀ entry ∈ (later.state map).store.entries,
      entry ∈ (earlier.state map).store.entries ∨
        ∃ now, entry.deadline = now.after? entry.timeout ∧
          (.ofMap map (.placed entry now) ∈ events ∨ .ofMap map (.touched entry now) ∈ events)

theorem Dates.trans {first second third : Deployment n S K V} (h : first.Dates second)
    (h' : second.Dates third) : first.Dates third := by
  obtain ⟨earlier, hearlier, hfirst⟩ := h
  obtain ⟨later, hlater, hsecond⟩ := h'
  refine ⟨later ++ earlier, by rw [hlater, hearlier, List.append_assoc], ?_⟩
  intro map entry hentry
  rcases hsecond map entry hentry with hentry | ⟨now, hdeadline, hstart⟩
  · rcases hfirst map entry hentry with hentry | ⟨now, hdeadline, hstart⟩
    · exact .inl hentry
    · exact .inr ⟨now, hdeadline, hstart.imp (List.mem_append_right _) (List.mem_append_right _)⟩
  · exact .inr ⟨now, hdeadline, hstart.imp (List.mem_append_left _) (List.mem_append_left _)⟩

theorem Aside.dates {earlier later : Deployment n S K V} (h : earlier.Aside later) :
    earlier.Dates later := by
  obtain ⟨events, hjournal, -⟩ := h.journal
  exact ⟨events, hjournal, fun map entry hentry => .inl (h.state map ▸ hentry)⟩

theorem dates_onMap [DecidableEq K] (enumeration : Fin n → Enumeration K V)
    (deployment : Deployment n S K V) (map : Fin n) (act : MapAct K V) :
    deployment.Dates (deployment.onMap enumeration map act).2 := by
  refine ⟨_, journal_onMap .., fun other entry hentry => ?_⟩
  rw [state_onMap] at hentry
  split at hentry
  · next heq =>
    subst heq
    refine (act.mem_or_start _ hentry).imp_right fun ⟨now, hdeadline, hstart⟩ => ?_
    exact ⟨now, hdeadline, by simpa using hstart⟩
  · exact .inl hentry

end Deployment

theorem stepwise_dates [DecidableEq K] (plan : Plan n S K V) : Stepwise plan Deployment.Dates :=
  ⟨.trans, Deployment.Aside.dates, Deployment.dates_onMap plan.enumeration⟩

/-! ## Entries that keep their number -/

theorem Entry.eq_touch {entry found : Entry K V} {now : Instant} (hstems : entry.Stems found)
    (hdeadline : entry.deadline = now.after? entry.timeout) : entry = found.touch now := by
  obtain ⟨key, value, timeout, seq, deadline⟩ := entry
  obtain ⟨rfl, rfl, rfl, rfl⟩ := hstems
  exact congrArg (Entry.mk _ _ _ _) hdeadline

/-- An entry that is found again under its number is as it was, or has been read meanwhile. -/
theorem Deployment.eq_or_touched [DecidableEq K] {earlier later : Deployment n S K V}
    (hdates : earlier.Dates later) (hproceeds : earlier.Proceeds later)
    (hnumbered : earlier.Numbered) {map : Fin n} {found entry : Entry K V}
    (hfound : found ∈ (earlier.state map).store.entries)
    (hentry : entry ∈ (later.state map).store.entries) (hseq : entry.seq = found.seq) :
    entry.Stems found ∧ ∃ events, later.journal = events ++ earlier.journal ∧
      (entry = found ∨
        ∃ now, .ofMap map (.touched entry now) ∈ events ∧ entry = found.touch now) := by
  obtain ⟨events, hjournal, hkept⟩ := hdates
  obtain ⟨events', hjournal', hplaced⟩ := hproceeds.grows.journal
  obtain rfl : events = events' := List.append_cancel_right (hjournal.symm.trans hjournal')
  have hstems : entry.Stems found := hnumbered.stems_of_seq_eq (hproceeds.numbered hnumbered)
    hproceeds.precedes hfound hentry hseq
  refine ⟨hstems, events, hjournal, ?_⟩
  rcases hkept map entry hentry with hold | ⟨now, hdeadline, hstart | hstart⟩
  · exact .inl ((hnumbered map).eq_of_seq_eq hold hfound hseq)
  · -- what is placed meanwhile has a number that had not been given out
    have hmem : entry ∈ placings map events :=
      List.mem_filterMap.mpr ⟨_, hstart, by simp [Event.placed?, MapEvent.placed?]⟩
    have hnew := hplaced map entry hmem
    have hgiven := (hnumbered map).seq_lt_next hfound
    omega
  · exact .inr ⟨now, hstart, Entry.eq_touch hstems hdeadline⟩

end ExpiringMap
