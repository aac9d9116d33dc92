import ExpiringMap.Proofs.Jobs.Affairs
import ExpiringMap.Proofs.Numbering
import ExpiringMap.Proofs.Traffic.Guards

/-!
# One job after the other

A map that is started anew has a new job, and the one before has been cancelled: a stop cancels the
job and empties the store before the map is stopped again.  So at any moment all jobs of the map but
the latest have been cancelled, and whatever is found in the store has been put there since
(`Governed`).  At most one thread at a time is in charge of the lifecycle, and its charge tells the
phase and how far things have come with the latest job.
-/

namespace ExpiringMap

variable {n : Nat} {S K V : Type}

/-! ## What a history tells of jobs and entries -/

section History

variable (map : Fin n) (id : Nat) (entry : Entry K V) (history : List (Happening n S K V))

/-- Whether the map has cancelled a job. -/
def CancelledIn : Prop :=
  ∃ thread answer, .does thread (.act (.scheduler (.cancel map id))) answer ∈ history

/-- Whether an entry has been put into the map, however it has been touched since. -/
def PlacedIn : Prop :=
  ∃ thread placed now, placed.key = entry.key ∧ placed.seq = entry.seq ∧
    ((∃ answer, .does thread (.act (.map map (.insert placed now))) answer ∈ history) ∨
      .does thread (.act (.map map (.insertIfAbsent placed now))) none ∈ history)

/-- Whether an entry has been put into the map since that has cancelled a job. -/
def PlacedSince : Prop :=
  ∃ earlier later, history = earlier ++ later ∧ CancelledIn map id earlier ∧
    PlacedIn map entry later

variable {map id entry history} {happened : List (Happening n S K V)}

theorem CancelledIn.append (h : CancelledIn map id history) :
    CancelledIn map id (history ++ happened) := by
  obtain ⟨thread, answer, hmem⟩ := h
  exact ⟨thread, answer, List.mem_append_left _ hmem⟩

theorem PlacedIn.append (h : PlacedIn map entry history) :
    PlacedIn map entry (history ++ happened) := by
  obtain ⟨thread, placed, now, hkey, hseq, hmem⟩ := h
  refine ⟨thread, placed, now, hkey, hseq, hmem.imp ?_ (List.mem_append_left _)⟩
  exact fun ⟨answer, hmem⟩ => ⟨answer, List.mem_append_left _ hmem⟩

theorem PlacedIn.congr {other : Entry K V} (h : PlacedIn map entry history)
    (hkey : other.key = entry.key) (hseq : other.seq = entry.seq) :
    PlacedIn map other history := by
  obtain ⟨thread, placed, now, hplaced, hnumber, hmem⟩ := h
  exact ⟨thread, placed, now, hplaced.trans hkey.symm, hnumber.trans hseq.symm, hmem⟩

theorem PlacedSince.append (h : PlacedSince map id entry history) :
    PlacedSince map id entry (history ++ happened) := by
  obtain ⟨earlier, later, rfl, hcancelled, hplaced⟩ := h
  exact ⟨earlier, later ++ happened, by simp, hcancelled, hplaced.append⟩

theorem PlacedSince.congr {other : Entry K V} (h : PlacedSince map id entry history)
    (hkey : other.key = entry.key) (hseq : other.seq = entry.seq) :
    PlacedSince map id other history := by
  obtain ⟨earlier, later, rfl, hcancelled, hplaced⟩ := h
  exact ⟨earlier, later, rfl, hcancelled, hplaced.congr hkey hseq⟩

end History

/-- What is found in a store once an entry has been placed is that entry, or has been there. -/
theorem Store.of_mem_place [DecidableEq K] {store : Store K V} {placed entry : Entry K V}
    (h : entry ∈ (store.place placed).entries) : entry ∈ store.entries ∨ entry = placed :=
  (List.mem_cons.mp h).symm.imp_left fun hmem => (List.mem_filter.mp hmem).1

/-- What is found in a map after an act has been there before, up to its deadline, or has been put
there in the act. -/
theorem MapAct.of_mem_entries [DecidableEq K] {act : MapAct K V} {state : MapState K V}
    {entry : Entry K V} (h : entry ∈ (act.apply state).store.entries)
    (enumeration : Enumeration K V) (map : Fin n) (thread : ThreadId) :
    (∃ old ∈ state.store.entries, entry.key = old.key ∧ entry.seq = old.seq) ∨
      PlacedIn map entry
        [(.does thread (.act (.map map act)) (act.answer enumeration state) :
          Happening n S K V)] := by
  -- an entry of before is told by itself, and so is one that some act has only read
  have hstays : entry ∈ state.store.entries →
      ∃ old ∈ state.store.entries, entry.key = old.key ∧ entry.seq = old.seq :=
    fun hmem => ⟨entry, hmem, rfl, rfl⟩
  have hplain : act.PlacesNothing →
      ∃ old ∈ state.store.entries, entry.key = old.key ∧ entry.seq = old.seq := by
    intro hact
    obtain ⟨old, hold, hstems⟩ := (MapAct.addsNothing hact state).stems entry h
    exact ⟨old, hold, hstems.key, hstems.seq⟩
  cases act with
  | insert placed now =>
      -- either an entry of before or the one that is placed
      rcases Store.of_mem_place h with hmem | heq
      · exact .inl (hstays hmem)
      · exact .inr ⟨thread, placed, now, by simp [heq], by simp [heq],
          .inl ⟨_, List.mem_singleton_self _⟩⟩
  | insertIfAbsent placed now =>
      cases hfound : state.store.lookup placed.key with
      | some present =>
          -- the key was present, so nothing is placed
          have hsame : (apply state (.insertIfAbsent placed now)).store = state.store := by
            simp [apply, Store.insertIfAbsent, hfound]
          exact .inl (hstays (hsame ▸ h))
      | none =>
          have hanswer : answer enumeration state (.insertIfAbsent placed now) = none := by
            simp [answer, Store.insertIfAbsent, hfound]
          have hlater : (apply state (.insertIfAbsent placed now)).store =
              state.store.place (placed.touch now) := by
            simp [apply, Store.insertIfAbsent, hfound]
          rw [hlater] at h
          rcases Store.of_mem_place h with hmem | heq
          · exact .inl (hstays hmem)
          · rw [hanswer]
            exact .inr ⟨thread, placed, now, by simp [heq], by simp [heq],
              .inr (List.mem_singleton_self _)⟩
  | lock | unlock | reserve | read | remove | removeIfSame | scan | size | clear | readPhase
  | setPhase | shift | keepJob | takeJob | borrow | hold | letGo | takeHandle | addHandle =>
      exact .inl (hplain trivial)

/-! ## The state of the succession -/

/-- A job that a map has cancelled, with nothing in the store but what has been put there since. -/
structure JobSettled (map : Fin n) (history : List (Happening n S K V)) (stage : Stage n S K V)
    (id : Nat) : Prop where
  cancelled : stage.deployment.affairs.isCancelled id = true
  cancelledIn : CancelledIn map id history
  placed : ∀ entry ∈ (stage.deployment.state map).store.entries,
    PlacedSince map id entry history

/-- Whether all jobs before one have been settled, and it is the latest. -/
def LatestJob (map : Fin n) (history : List (Happening n S K V)) (stage : Stage n S K V)
    (id : Nat) : Prop :=
  id + 1 = stage.deployment.affairs.owners.length ∧
    ∀ earlier < id, JobSettled map history stage earlier

/-- Whether all jobs have been settled. -/
def NoJob (map : Fin n) (history : List (Happening n S K V)) (stage : Stage n S K V) : Prop :=
  ∀ id < stage.deployment.affairs.owners.length, JobSettled map history stage id

/-- How things stand with the lifecycle of a map, given what whoever governs it is in charge of. -/
def Charge.Stands (map : Fin n) (history : List (Happening n S K V)) (stage : Stage n S K V) :
    Charge → Prop :=
  let affair := stage.deployment.affairs.of map
  fun
  | nothing => affair.phase = .stopped ∧ NoJob map history stage ∨
      affair.phase = .started ∧ ∃ id, affair.job = some id ∧ LatestJob map history stage id
  | claim => affair.phase = .starting ∧ NoJob map history stage
  | scheduled id => affair.phase = .starting ∧ LatestJob map history stage id
  | kept id => affair.phase = .starting ∧ affair.job = some id ∧ LatestJob map history stage id
  | leave => affair.phase = .stopping ∧ ∃ id, affair.job = some id ∧ LatestJob map history stage id
  | taken id => affair.phase = .stopping ∧ LatestJob map history stage id
  | cancelled id => affair.phase = .stopping ∧ LatestJob map history stage id ∧
      stage.deployment.affairs.isCancelled id = true ∧ CancelledIn map id history
  | emptied => affair.phase = .stopping ∧ NoJob map history stage

/-- Whether a map whose handles stay is governed by one thread at most, and all jobs are its own. -/
structure Governed (map : Fin n) (history : List (Happening n S K V)) (stage : Stage n S K V)
    (bearings : ThreadId → Bearing K V) : Prop where
  handles : 0 < (stage.deployment.affairs.of map).handles
  owned : ∀ owner ∈ stage.deployment.affairs.owners, owner = map
  governor : ∃ thread, (∀ other, other ≠ thread → (bearings other).charge = .nothing) ∧
    (bearings thread).charge.Stands map history stage

section Standing

variable {map : Fin n} {history happened : List (Happening n S K V)} {stage later : Stage n S K V}
  {charge : Charge} {id : Nat}

/-- All jobs but the latest have been settled, whatever a thread is in charge of. -/
theorem Charge.Stands.settled (h : charge.Stands map history stage)
    (hid : id + 1 < stage.deployment.affairs.owners.length) : JobSettled map history stage id := by
  have hnone : NoJob map history stage → JobSettled map history stage id :=
    fun hnone => hnone id (by omega)
  have hlatest : ∀ {latest}, LatestJob map history stage latest → JobSettled map history stage id :=
    fun ⟨hlength, hearlier⟩ => hearlier id (by omega)
  cases charge with
  | nothing =>
      -- nobody has a charge, so either there is no job or the latest one is kept
      rcases h with ⟨-, h⟩ | ⟨-, _, -, h⟩
      · exact hnone h
      · exact hlatest h
  | claim => exact hnone h.2
  | scheduled => exact hlatest h.2
  | kept => exact hlatest h.2.2
  | leave =>
      obtain ⟨-, _, -, h⟩ := h
      exact hlatest h
  | taken => exact hlatest h.2
  | cancelled => exact hlatest h.2.1
  | emptied => exact hnone h.2

/-- In a phase in which calls begin nobody is in charge of anything. -/
theorem Charge.Stands.eq_nothing (h : charge.Stands map history stage)
    (hphase : ¬ (stage.deployment.affairs.of map).phase = .starting ∧
      ¬ (stage.deployment.affairs.of map).phase = .stopping) : charge = .nothing := by
  cases charge with
  | nothing => rfl
  | claim | scheduled | kept => exact absurd h.1 hphase.1
  | leave | taken | cancelled | emptied => exact absurd h.1 hphase.2

/-- Whether jobs that have been settled stay so: no cancellation is undone, and what comes into the
store has just been put there. -/
structure Sustains (map : Fin n) (stage : Stage n S K V) (happened : List (Happening n S K V))
    (later : Stage n S K V) : Prop where
  cancelled : ∀ id, stage.deployment.affairs.isCancelled id = true →
    later.deployment.affairs.isCancelled id = true
  entries : ∀ entry ∈ (later.deployment.state map).store.entries,
    (∃ old ∈ (stage.deployment.state map).store.entries,
      entry.key = old.key ∧ entry.seq = old.seq) ∨ PlacedIn map entry happened

theorem JobSettled.sustained (h : JobSettled map history stage id)
    (hsustains : Sustains map stage happened later) :
    JobSettled map (history ++ happened) later id where
  cancelled := hsustains.cancelled id h.cancelled
  cancelledIn := h.cancelledIn.append
  placed entry hentry := by
    rcases hsustains.entries entry hentry with ⟨old, hold, hkey, hseq⟩ | hplaced
    · exact ((h.placed old hold).congr hkey hseq).append
    · exact ⟨history, happened, rfl, h.cancelledIn, hplaced⟩

theorem NoJob.sustained (h : NoJob map history stage)
    (hsustains : Sustains map stage happened later)
    (hjobs : later.deployment.affairs.owners.length = stage.deployment.affairs.owners.length) :
    NoJob map (history ++ happened) later :=
  fun id hid => (h id (hjobs ▸ hid)).sustained hsustains

theorem LatestJob.sustained (h : LatestJob map history stage id)
    (hsustains : Sustains map stage happened later)
    (hjobs : later.deployment.affairs.owners.length = stage.deployment.affairs.owners.length) :
    LatestJob map (history ++ happened) later id :=
  ⟨by rw [hjobs, h.1], fun earlier hearlier => (h.2 earlier hearlier).sustained hsustains⟩

theorem Charge.Stands.sustained (h : charge.Stands map history stage)
    (hsustains : Sustains map stage happened later)
    (hjobs : later.deployment.affairs.owners.length = stage.deployment.affairs.owners.length)
    (hphase : (later.deployment.affairs.of map).phase = (stage.deployment.affairs.of map).phase)
    (hjob : (later.deployment.affairs.of map).job = (stage.deployment.affairs.of map).job) :
    charge.Stands map (history ++ happened) later := by
  -- only the facts on jobs have to be carried over, phase and slot being as they were
  have hnone := fun h : NoJob map history stage => h.sustained hsustains hjobs
  have hlatest := fun {id} (h : LatestJob map history stage id) => h.sustained hsustains hjobs
  unfold Stands at h ⊢
  rw [hphase, hjob]
  cases charge with
  | nothing =>
      exact h.imp (fun ⟨hphase, h⟩ => ⟨hphase, hnone h⟩) fun ⟨hphase, id, hjob, h⟩ =>
        ⟨hphase, id, hjob, hlatest h⟩
  | claim => exact ⟨h.1, hnone h.2⟩
  | scheduled => exact ⟨h.1, hlatest h.2⟩
  | kept => exact ⟨h.1, h.2.1, hlatest h.2.2⟩
  | leave =>
      obtain ⟨hphase, id, hjob, h⟩ := h
      exact ⟨hphase, id, hjob, hlatest h⟩
  | taken => exact ⟨h.1, hlatest h.2⟩
  | cancelled id =>
      exact ⟨h.1, hlatest h.2.1, hsustains.cancelled id h.2.2.1, h.2.2.2.append⟩
  | emptied => exact ⟨h.1, hnone h.2⟩

end Standing

/-! ## Deeds -/

section Deeds

variable [DecidableEq K] (plan : Plan n S K V) (map : Fin n) (stage : Stage n S K V)
  (thread : ThreadId)

theorem Plan.affairs_onMap (act : MapAct K V) :
    (stage.perform plan thread (.act (.map map act))).2.deployment.affairs =
      stage.deployment.affairs.change map act.onAffair :=
  stage.deployment.affairs_onMap plan.enumeration map act

/-- No act on the map undoes what has been settled. -/
theorem sustains_onMap (act : MapAct K V) :
    Sustains map stage
      [.does thread (.act (.map map act)) (stage.perform plan thread (.act (.map map act))).1]
      (stage.perform plan thread (.act (.map map act))).2 where
  cancelled id h := by rwa [plan.affairs_onMap map stage thread act]
  entries entry hentry := by
    have hstate : (stage.perform plan thread (.act (.map map act))).2.deployment.state map =
        act.apply (stage.deployment.state map) := by
      simp [Stage.perform, Plan.perform, Deployment.perform]
    rw [hstate] at hentry
    exact MapAct.of_mem_entries hentry (plan.enumeration map) map thread

/-- What is no act on the map puts nothing in. -/
theorem sustains_aside (deed : Deed n S K V) (hdeed : ∀ act, deed ≠ .act (.map map act))
    (happened : List (Happening n S K V))
    (hcancelled : ∀ id, stage.deployment.affairs.isCancelled id = true →
      (stage.perform plan thread deed).2.deployment.affairs.isCancelled id = true) :
    Sustains map stage happened (stage.perform plan thread deed).2 where
  cancelled := hcancelled
  entries entry hentry := by
    have hstate : (stage.perform plan thread deed).2.deployment.state map =
        stage.deployment.state map := plan.state_perform hdeed _
    rw [hstate] at hentry
    exact .inl ⟨entry, hentry, rfl, rfl⟩

end Deeds

section Governing

variable {map : Fin n} {history happened : List (Happening n S K V)} {stage later : Stage n S K V}
  {bearings : ThreadId → Bearing K V} {bearing : Bearing K V} {thread : ThreadId}

/-- Whoever is in charge of something is the one who governs the map. -/
theorem Governed.governs (h : Governed map history stage bearings) (thread : ThreadId)
    (hcharge : (bearings thread).charge ≠ .nothing) :
    (∀ other, other ≠ thread → (bearings other).charge = .nothing) ∧
      (bearings thread).charge.Stands map history stage := by
  obtain ⟨governor, hothers, hstands⟩ := h.governor
  obtain rfl : thread = governor := by
    by_contra hne
    exact hcharge (hothers thread hne)
  exact ⟨hothers, hstands⟩

/-- In a phase in which calls begin nobody is in charge of anything. -/
theorem Governed.idle (h : Governed map history stage bearings)
    (hphase : ¬ (stage.deployment.affairs.of map).phase = .starting ∧
      ¬ (stage.deployment.affairs.of map).phase = .stopping) :
    (∀ other, (bearings other).charge = .nothing) ∧
      Charge.nothing.Stands map history stage := by
  obtain ⟨governor, hothers, hstands⟩ := h.governor
  have hcharge := hstands.eq_nothing hphase
  rw [hcharge] at hstands
  refine ⟨fun other => ?_, hstands⟩
  by_cases heq : other = governor
  · rw [heq, hcharge]
  · exact hothers other heq

/-- A thread has something else in its charge, and nobody else has anything. -/
theorem governor_update (hothers : ∀ other, other ≠ thread → (bearings other).charge = .nothing)
    (hstands : bearing.charge.Stands map history stage) :
    ∃ governor,
      (∀ other, other ≠ governor →
        (Function.update bearings thread bearing other).charge = .nothing) ∧
      (Function.update bearings thread bearing governor).charge.Stands map history stage := by
  refine ⟨thread, fun other hne => ?_, ?_⟩
  · rw [Function.update_of_ne hne]
    exact hothers other hne
  · rwa [Function.update_self]

/-- Nothing has become of the lifecycle. -/
theorem Governed.sustained (h : Governed map history stage bearings)
    (hsustains : Sustains map stage happened later)
    (howners : later.deployment.affairs.owners = stage.deployment.affairs.owners)
    (hphase : (later.deployment.affairs.of map).phase = (stage.deployment.affairs.of map).phase)
    (hjob : (later.deployment.affairs.of map).job = (stage.deployment.affairs.of map).job)
    (hhandles : 0 < (later.deployment.affairs.of map).handles)
    (hcharge : bearing.charge = (bearings thread).charge) :
    Governed map (history ++ happened) later (Function.update bearings thread bearing) := by
  -- the thread keeps its charge, so nobody's charge changes
  have hsame : ∀ other,
      (Function.update bearings thread bearing other).charge = (bearings other).charge := by
    intro other
    by_cases heq : other = thread
    · rw [heq, Function.update_self, hcharge]
    · rw [Function.update_of_ne heq]
  obtain ⟨governor, hothers, hstands⟩ := h.governor
  refine ⟨hhandles, howners ▸ h.owned, governor, fun other hne => ?_, ?_⟩
  · rw [hsame, hothers other hne]
  · rw [hsame]
    exact hstands.sustained hsustains (by rw [howners]) hphase hjob

theorem Governed.unchanged (h : Governed map history stage bearings)
    (hsustains : Sustains map stage happened later)
    (hsame : later.deployment.affairs = stage.deployment.affairs)
    (hcharge : bearing.charge = (bearings thread).charge) :
    Governed map (history ++ happened) later (Function.update bearings thread bearing) :=
  h.sustained hsustains (by rw [hsame]) (by rw [hsame]) (by rw [hsame])
    (by rw [hsame]; exact h.handles) hcharge

theorem Governed.aside (h : Governed map history stage bearings)
    (haffairs : later.deployment.affairs = stage.deployment.affairs)
    (hstate : later.deployment.state map = stage.deployment.state map) :
    Governed map (history ++ happened) later bearings := by
  have hsustains : Sustains map stage happened later := by
    refine ⟨fun id hid => by rwa [haffairs], fun entry hentry => ?_⟩
    rw [hstate] at hentry
    exact .inl ⟨entry, hentry, rfl, rfl⟩
  have hsame : Governed map (history ++ happened) later
      (Function.update bearings 0 (bearings 0)) := h.unchanged hsustains haffairs rfl
  rwa [Function.update_eq_self] at hsame

/-- All jobs but the latest have been settled. -/
theorem Governed.settled (h : Governed map history stage bearings) {id : Nat}
    (hid : id + 1 < stage.deployment.affairs.owners.length) : JobSettled map history stage id := by
  obtain ⟨governor, -, hstands⟩ := h.governor
  exact hstands.settled hid

end Governing

/-! ### The steps of calls -/

section Calls

variable {map : Fin n} {history happened : List (Happening n S K V)} {stage later : Stage n S K V}
  {bearings : ThreadId → Bearing K V} {bearing : Bearing K V} {thread : ThreadId} {id : Nat}

/-- What an act on the affair of the map alone has changed. -/
theorem affair_of_change {act : Affair → Affair}
    (haffairs : later.deployment.affairs = stage.deployment.affairs.change map act) :
    later.deployment.affairs.of map = act (stage.deployment.affairs.of map) ∧
      later.deployment.affairs.owners = stage.deployment.affairs.owners := by
  rw [haffairs, Affairs.of_change, if_pos rfl]
  exact ⟨rfl, rfl⟩

/-- Whoever governs the map comes to be in charge of something else. -/
theorem Governed.charged (h : Governed map history stage bearings)
    (hjobs : later.deployment.affairs.owners = stage.deployment.affairs.owners)
    (hhandles : (later.deployment.affairs.of map).handles =
      (stage.deployment.affairs.of map).handles)
    (hothers : ∀ other, other ≠ thread → (bearings other).charge = .nothing)
    (hstands : bearing.charge.Stands map (history ++ happened) later) :
    Governed map (history ++ happened) later (Function.update bearings thread bearing) :=
  ⟨hhandles ▸ h.handles, hjobs ▸ h.owned, governor_update hothers hstands⟩

/-- An act that leaves the phase and the job, and takes no handle, is no matter of calls. -/
theorem Governed.bystands (h : Governed map history stage bearings)
    (hsustains : Sustains map stage happened later) {act : Affair → Affair}
    (haffairs : later.deployment.affairs = stage.deployment.affairs.change map act)
    (hact : ∀ affair, (act affair).phase = affair.phase ∧ (act affair).job = affair.job ∧
      affair.handles ≤ (act affair).handles)
    (hcharge : bearing.charge = (bearings thread).charge) :
    Governed map (history ++ happened) later (Function.update bearings thread bearing) := by
  obtain ⟨hof, howners⟩ := affair_of_change haffairs
  obtain ⟨hphase, hjob, hhandles⟩ := hact (stage.deployment.affairs.of map)
  exact h.sustained hsustains howners (by rw [hof, hphase]) (by rw [hof, hjob])
    (by rw [hof]; exact Nat.lt_of_lt_of_le h.handles hhandles) hcharge

/-- A call begins. -/
theorem Governed.claims (h : Governed map history stage bearings)
    (hsustains : Sustains map stage happened later) {call : LifecycleCall}
    (hphase : (stage.deployment.affairs.of map).phase = call.needs)
    (haffairs : later.deployment.affairs =
      stage.deployment.affairs.change map (Affair.enter call.entry.phase))
    (hcharge : bearing.charge = call.charge) :
    Governed map (history ++ happened) later (Function.update bearings thread bearing) := by
  obtain ⟨hof, hjobs⟩ := affair_of_change haffairs
  -- nobody had a charge, since the phase was a stable one
  obtain ⟨hothers, hstands⟩ := h.idle (by rw [hphase]; cases call <;> exact ⟨nofun, nofun⟩)
  refine h.charged hjobs (by rw [hof]; rfl) (fun other _ => hothers other) ?_
  rw [hcharge]
  cases call with
  | start =>
      rcases hstands with ⟨-, hnone⟩ | ⟨hstarted, -⟩
      · exact ⟨by rw [hof]; rfl, hnone.sustained hsustains (by rw [hjobs])⟩
      · cases hphase.symm.trans hstarted
  | stop =>
      rcases hstands with ⟨hstopped, -⟩ | ⟨-, id, hjob, hlatest⟩
      · cases hphase.symm.trans hstopped
      · exact ⟨by rw [hof]; rfl, id, by rw [hof]; exact hjob,
          hlatest.sustained hsustains (by rw [hjobs])⟩

/-- A call begins, or finds the map in another phase than it needs. -/
theorem Governed.shifts (h : Governed map history stage bearings)
    (hsustains : Sustains map stage happened later) {call : LifecycleCall}
    (haffairs : later.deployment.affairs = stage.deployment.affairs.change map
      (MapAct.onAffair (.shift (K := K) (V := V) call call.needs call.entry.phase))) :
    Governed map (history ++ happened) later
      (Function.update bearings thread ((bearings thread).afterOnMap
        (.shift call call.needs call.entry.phase)
        ((stage.deployment.affairs.of map).phase.shift call call.needs call.entry.phase).1)) := by
  by_cases hphase : (stage.deployment.affairs.of map).phase = call.needs
  · have hchange : later.deployment.affairs =
        stage.deployment.affairs.change map (Affair.enter call.entry.phase) := by
      rw [haffairs]
      simp only [Affairs.change, MapAct.onAffair, if_pos hphase]
    rw [Phase.shift, if_pos hphase]
    exact h.claims hsustains hphase hchange rfl
  · rw [Phase.shift, if_neg hphase]
    exact h.unchanged hsustains (haffairs.trans (Affairs.change_eq_self (if_neg hphase))) rfl

/-- A call ends. -/
theorem Governed.sets (h : Governed map history stage bearings)
    (hsustains : Sustains map stage happened later) {phase : Phase}
    (hsets : Bearing.Sets (bearings thread).charge phase)
    (haffairs : later.deployment.affairs = stage.deployment.affairs.change map (Affair.enter phase))
    (hcharge : bearing.charge = .nothing) :
    Governed map (history ++ happened) later (Function.update bearings thread bearing) := by
  obtain ⟨hof, hjobs⟩ := affair_of_change haffairs
  obtain ⟨hothers, hstands⟩ := h.governs thread (by
    intro heq
    rw [heq] at hsets
    cases phase <;> simp [Bearing.Sets] at hsets)
  refine h.charged hjobs (by rw [hof]; rfl) hothers ?_
  rw [hcharge]
  cases phase with
  -- stopped after a start that failed or a stop, all jobs cancelled either way
  | stopped =>
      have hnone : NoJob map history stage := by
        rcases hsets with hsets | hsets <;> rw [hsets] at hstands <;> exact hstands.2
      exact .inl ⟨by rw [hof]; rfl, hnone.sustained hsustains (by rw [hjobs])⟩
  | started =>
      obtain ⟨id, hkept⟩ := hsets
      rw [hkept] at hstands
      obtain ⟨-, hjob, hlatest⟩ := hstands
      exact .inr ⟨by rw [hof]; rfl, id, by rw [hof]; exact hjob,
        hlatest.sustained hsustains (by rw [hjobs])⟩
  | starting | stopping => exact hsets.elim

/-- A task is accepted, whose job is the latest now. -/
theorem Governed.schedules (h : Governed map history stage bearings)
    (hsustains : Sustains map stage happened later) (hclaim : (bearings thread).charge = .claim)
    (haffairs : later.deployment.affairs = stage.deployment.affairs.schedule map)
    (hcharge : bearing.charge = .scheduled stage.deployment.affairs.owners.length) :
    Governed map (history ++ happened) later (Function.update bearings thread bearing) := by
  obtain ⟨hothers, hstands⟩ := h.governs thread (by simp [hclaim])
  rw [hclaim] at hstands
  obtain ⟨hphase, hnone⟩ := hstands
  have howners : later.deployment.affairs.owners = stage.deployment.affairs.owners ++ [map] := by
    rw [haffairs]; rfl
  refine ⟨?_, ?_, governor_update hothers ?_⟩
  · rw [haffairs, Affairs.of_schedule, if_pos rfl]
    exact h.handles
  · intro owner howner
    rw [howners, List.mem_append, List.mem_singleton] at howner
    exact howner.elim (h.owned owner) id
  · -- the new job is the latest, and all earlier ones are settled as before
    rw [hcharge]
    refine ⟨by rw [haffairs, Affairs.of_schedule, if_pos rfl]; exact hphase, ?_,
      fun earlier hearlier => (hnone earlier hearlier).sustained hsustains⟩
    rw [howners, List.length_append, List.length_singleton]

theorem Governed.keeps (h : Governed map history stage bearings)
    (hsustains : Sustains map stage happened later)
    (hscheduled : (bearings thread).charge = .scheduled id)
    (haffairs : later.deployment.affairs = stage.deployment.affairs.change map (Affair.keepJob id))
    (hcharge : bearing.charge = .kept id) :
    Governed map (history ++ happened) later (Function.update bearings thread bearing) := by
  obtain ⟨hof, hjobs⟩ := affair_of_change haffairs
  obtain ⟨hothers, hstands⟩ := h.governs thread (by simp [hscheduled])
  rw [hscheduled] at hstands
  refine h.charged hjobs (by rw [hof]; rfl) hothers ?_
  rw [hcharge]
  exact ⟨by rw [hof]; exact hstands.1, by rw [hof]; rfl,
    hstands.2.sustained hsustains (by rw [hjobs])⟩

theorem Governed.takes (h : Governed map history stage bearings)
    (hsustains : Sustains map stage happened later) (hleave : (bearings thread).charge = .leave)
    (hjob : (stage.deployment.affairs.of map).job = some id)
    (haffairs : later.deployment.affairs = stage.deployment.affairs.change map Affair.dropJob)
    (hcharge : bearing.charge = .taken id) :
    Governed map (history ++ happened) later (Function.update bearings thread bearing) := by
  obtain ⟨hof, hjobs⟩ := affair_of_change haffairs
  obtain ⟨hothers, hstands⟩ := h.governs thread (by simp [hleave])
  rw [hleave] at hstands
  obtain ⟨hphase, other, hother, hlatest⟩ := hstands
  obtain rfl := Option.some.inj (hjob.symm.trans hother)
  refine h.charged hjobs (by rw [hof]; rfl) hothers ?_
  rw [hcharge]
  exact ⟨by rw [hof]; exact hphase, hlatest.sustained hsustains (by rw [hjobs])⟩

theorem Governed.cancels (h : Governed map history stage bearings)
    (hsustains : Sustains map stage happened later) (htaken : (bearings thread).charge = .taken id)
    (haffairs : later.deployment.affairs = stage.deployment.affairs.cancel map id)
    (hcancelledIn : CancelledIn map id happened) (hcharge : bearing.charge = .cancelled id) :
    Governed map (history ++ happened) later (Function.update bearings thread bearing) := by
  have hjobs : later.deployment.affairs.owners = stage.deployment.affairs.owners := by
    rw [haffairs]; rfl
  have hof : later.deployment.affairs.of map = stage.deployment.affairs.of map := by
    rw [haffairs]; rfl
  obtain ⟨hothers, hstands⟩ := h.governs thread (by simp [htaken])
  rw [htaken] at hstands
  refine h.charged hjobs (by rw [hof]) hothers ?_
  rw [hcharge]
  -- the job is marked now, and the happening that marked it is the last one
  refine ⟨by rw [hof]; exact hstands.1, hstands.2.sustained hsustains (by rw [hjobs]), ?_, ?_⟩
  · rw [haffairs, Affairs.isCancelled_cancel, if_pos rfl]
  · obtain ⟨canceller, answer, hmem⟩ := hcancelledIn
    exact ⟨canceller, answer, List.mem_append_right _ hmem⟩

/-- The store is emptied after the latest job has been cancelled, which settles them all. -/
theorem Governed.empties (h : Governed map history stage bearings)
    (hsustains : Sustains map stage happened later)
    (hcancelled : (bearings thread).charge = .cancelled id)
    (haffairs : later.deployment.affairs = stage.deployment.affairs)
    (hempty : (later.deployment.state map).store.entries = [])
    (hcharge : bearing.charge = .emptied) :
    Governed map (history ++ happened) later (Function.update bearings thread bearing) := by
  obtain ⟨hothers, hstands⟩ := h.governs thread (by simp [hcancelled])
  rw [hcancelled] at hstands
  obtain ⟨hphase, ⟨hlength, hearlier⟩, hmarked, hcancelledIn⟩ := hstands
  refine h.charged (by rw [haffairs]) (by rw [haffairs]) hothers ?_
  rw [hcharge]
  refine ⟨by rw [haffairs]; exact hphase, fun other hother => ?_⟩
  rw [haffairs, ← hlength] at hother
  -- an earlier job is settled as before, and the latest is now, with the store empty
  rcases Nat.lt_succ_iff_lt_or_eq.mp hother with hlt | rfl
  · exact (hearlier other hlt).sustained hsustains
  · refine ⟨hsustains.cancelled other hmarked, hcancelledIn.append, ?_⟩
    rw [hempty]
    exact nofun

end Calls

/-- A job that is run is one of those that the scheduler has. -/
theorem RunsApart.lt_length {deployment : Deployment n S K V} {bearings : ThreadId → Bearing K V}
    (h : RunsApart deployment.scheduler bearings) {thread : ThreadId} {id : Nat}
    (hrun : (bearings thread).run = some id) : id < deployment.affairs.owners.length := by
  obtain ⟨job, hjob, -⟩ := h.running thread id hrun
  have hlength := (List.getElem?_eq_some_iff.mp hjob).1
  simpa [Deployment.affairs] using hlength

/-! ### Deeds of threads -/

section Does

variable [DecidableEq K] {plan : Plan n S K V} {map : Fin n} {history : List (Happening n S K V)}
  {stage : Stage n S K V} {bearings : ThreadId → Bearing K V} {thread : ThreadId}

/-- An act on the map that its protocol permits is a step of a call, or no matter of calls. -/
theorem Governed.onMap (h : Governed map history stage bearings) {act : MapAct K V}
    (hpermits : (bearings thread).PermitsOnMap act) :
    Governed map
      (history ++
        [.does thread (.act (.map map act)) (stage.perform plan thread (.act (.map map act))).1])
      (stage.perform plan thread (.act (.map map act))).2
      (Function.update bearings thread ((bearings thread).afterOnMap act
        (stage.perform plan thread (.act (.map map act))).1)) := by
  -- in each case what has happened sustains the facts, and the affairs tell the rest
  have hsustains := sustains_onMap plan map stage thread act
  have haffairs := plan.affairs_onMap map stage thread act
  cases act with
  | shift call source target =>
      obtain ⟨-, rfl, rfl⟩ := hpermits
      exact h.shifts hsustains haffairs
  | setPhase phase => exact h.sets hsustains hpermits haffairs rfl
  | keepJob id => exact h.keeps hsustains hpermits haffairs rfl
  | takeJob =>
      have hleave : (bearings thread).charge = .leave := hpermits
      obtain ⟨-, hstands⟩ := h.governs thread (by simp [hleave])
      rw [hleave] at hstands
      obtain ⟨-, id, hjob, -⟩ := hstands
      have hanswer : (stage.perform plan thread (.act (.map map .takeJob))).1 =
          -- the answer is the job in the slot, so that is the charge from now on
          (some id : Option Nat) := hjob
      refine h.takes hsustains hleave hjob haffairs ?_
      rw [hanswer]
      rfl
  | clear =>
      obtain ⟨id, hcancelled⟩ := hpermits
      have hstate : (stage.perform plan thread (.act (.map map .clear))).2.deployment.state map =
          MapAct.clear.apply (stage.deployment.state map) := by
        simp [Stage.perform, Plan.perform, Deployment.perform]
      refine h.empties hsustains hcancelled (haffairs.trans (Affairs.change_eq_self rfl)) ?_ rfl
      rw [hstate]
      rfl
  | borrow | takeHandle => exact hpermits.elim
  | hold =>
      refine h.bystands hsustains haffairs (fun affair => ?_) rfl
      simp only [MapAct.onAffair]
      split <;> exact ⟨rfl, rfl, Nat.le_refl _⟩
  | addHandle =>
      exact h.bystands hsustains haffairs (fun affair => ⟨rfl, rfl, Nat.le_succ _⟩) rfl
  | lock | unlock | reserve | read | insert | insertIfAbsent | remove | removeIfSame | scan | size
  | readPhase | letGo =>
      exact h.bystands hsustains haffairs (fun affair => ⟨rfl, rfl, Nat.le_refl _⟩) rfl

/-- A task is scheduled by whoever begins a call, and accepted or refused. -/
theorem Governed.onSchedule (h : Governed map history stage bearings)
    (hclaim : (bearings thread).charge = .claim) (initialDelay delay : Duration) :
    let deed : Deed n S K V := .act (.scheduler (.schedule map initialDelay delay))
    Governed map (history ++ [.does thread deed (stage.perform plan thread deed).1])
      (stage.perform plan thread deed).2
      (Function.update bearings thread ((bearings thread).afterOnScheduler
        (.schedule map initialDelay delay) (stage.perform plan thread deed).1)) := by
  intro deed
  have hsustains := sustains_aside plan map stage thread deed (by simp [deed])
    [.does thread deed (stage.perform plan thread deed).1]
  rcases stage.deployment.onScheduler_cases_schedule map initialDelay delay with
    -- the scheduler refuses, and nothing changes
    ⟨error, later, heq, hsame⟩ | ⟨runsAtOnce, later, heq, hadded⟩
  · have hanswer : (stage.perform plan thread deed).1 = .error error := congrArg Prod.fst heq
    have haffairs : (stage.perform plan thread deed).2.deployment.affairs =
        stage.deployment.affairs := by
      rw [← hsame]
      exact congrArg (fun result => result.2.affairs) heq
    refine h.unchanged (hsustains fun id hid => by rwa [haffairs]) haffairs ?_
    rw [hanswer]
    rfl
  · -- the job is the latest one of the map
    have hanswer : (stage.perform plan thread deed).1 =
        .ok ⟨stage.deployment.affairs.owners.length, runsAtOnce⟩ := congrArg Prod.fst heq
    have haffairs : (stage.perform plan thread deed).2.deployment.affairs =
        stage.deployment.affairs.schedule map := by
      rw [← hadded]
      exact congrArg (fun result => result.2.affairs) heq
    refine h.schedules (hsustains fun id hid => by rwa [haffairs]) hclaim haffairs ?_
    rw [hanswer]
    rfl

theorem Governed.onScheduler (h : Governed map history stage bearings) {act : SchedulerAct n}
    (hpermits : (bearings thread).PermitsOnScheduler map act) :
    Governed map
      (history ++ [.does thread (.act (.scheduler act))
        (stage.perform plan thread (.act (.scheduler act))).1])
      (stage.perform plan thread (.act (.scheduler act))).2
      (Function.update bearings thread ((bearings thread).afterOnScheduler act
        (stage.perform plan thread (.act (.scheduler act))).1)) := by
  have hsustains := sustains_aside plan map stage thread (.act (.scheduler act)) nofun
    [.does thread (.act (.scheduler act)) (stage.perform plan thread (.act (.scheduler act))).1]
  -- acts that leave the jobs alone change nothing that matters here
  have haside : act.LeavesJobs → ∀ bearing : Bearing K V,
      bearing.charge = (bearings thread).charge →
        Governed map
          (history ++ [.does thread (.act (.scheduler act))
            (stage.perform plan thread (.act (.scheduler act))).1])
          (stage.perform plan thread (.act (.scheduler act))).2
          (Function.update bearings thread bearing) := by
    intro hact bearing hcharge
    have hsame : (stage.perform plan thread (.act (.scheduler act))).2.deployment.affairs =
        stage.deployment.affairs := stage.deployment.affairs_onScheduler act hact
    exact h.unchanged (hsustains fun id hid => by rwa [hsame]) hsame hcharge
  cases act with
  | schedule owner initialDelay delay =>
      obtain ⟨rfl, hclaim⟩ := hpermits
      exact h.onSchedule hclaim initialDelay delay
  | cancel owner id =>
      obtain ⟨rfl, htaken⟩ := hpermits
      obtain ⟨-, hstands⟩ := h.governs thread (by simp [htaken])
      rw [htaken] at hstands
      -- the job has been scheduled, so marking it is not in vain
      have hid : id < stage.deployment.affairs.owners.length := by
        obtain ⟨-, hlength, -⟩ := hstands
        omega
      have haffairs : (stage.perform plan thread
          (.act (.scheduler (.cancel owner id)))).2.deployment.affairs =
            stage.deployment.affairs.cancel owner id := stage.deployment.affairs_cancel owner hid
      refine h.cancels (hsustains fun other hother => ?_) htaken haffairs
        ⟨thread, _, List.mem_singleton_self _⟩ rfl
      rw [haffairs, Affairs.isCancelled_cancel]
      split
      · rfl
      · exact hother
  | begin id =>
      refine haside trivial _ ?_
      generalize (stage.perform plan thread (.act (.scheduler (.begin id)))).1 = beginning
      cases beginning <;> rfl
  | finish | isShutdown | shutdown | refuse | jobCount | isReady => exact haside trivial _ rfl

/-- Whatever a thread does that its protocol permits, the map is governed. -/
theorem Governed.does (h : Governed map history stage bearings) {deed : Deed n S K V}
    (hpermits : (Bearing.protocol map).PermitsDeed (bearings thread) deed) :
    Governed map (history ++ [.does thread deed (stage.perform plan thread deed).1])
      (stage.perform plan thread deed).2
      (Function.update bearings thread ((Bearing.protocol map).afterDeed (bearings thread) deed
        (stage.perform plan thread deed).1)) := by
  -- what is done beside the map leaves its affairs alone
  have haside : (∀ act, deed ≠ .act (.map map act)) →
      (stage.perform plan thread deed).2.deployment.affairs = stage.deployment.affairs →
        Governed map (history ++ [.does thread deed (stage.perform plan thread deed).1])
          (stage.perform plan thread deed).2
          (Function.update bearings thread (bearings thread)) := by
    intro hdeed hsame
    have hsustains := sustains_aside plan map stage thread deed hdeed
      [.does thread deed (stage.perform plan thread deed).1] fun id hid => by rwa [hsame]
    exact h.unchanged hsustains hsame rfl
  cases deed with
  | act act =>
      cases act with
      | map other act =>
          obtain ⟨rfl, hact⟩ := hpermits
          exact h.onMap hact
      | scheduler act => exact h.onScheduler hpermits
      | clock act => exact haside nofun (stage.deployment.affairs_onClock act)
      | log other record => exact haside nofun (stage.deployment.affairs_logged other record)
      | sleep ns => exact haside nofun (stage.deployment.affairs_elapse ns)
  | enter other hook => exact haside nofun (stage.deployment.affairs_enter plan other hook)
  | resume other call outcome remember =>
      exact haside nofun (stage.deployment.affairs_resume other call outcome remember)
  | leave other hook verdict =>
      exact haside nofun (stage.deployment.affairs_leave other hook verdict)
  | gather => exact hpermits.elim

end Does

end ExpiringMap
