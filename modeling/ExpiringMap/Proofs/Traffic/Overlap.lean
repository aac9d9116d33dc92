import ExpiringMap.Proofs.Jobs.Ownership
import ExpiringMap.Proofs.Traffic.Succession

/-!
# Scheduled passes that overlap

A map may be started anew while a run of its old job is still in progress, and then a pass of the
old job and one of the new job come together.  A lock that excludes keeps them apart.  Without one
they overlap (`passes_overlap`), but never more than that can happen (`scheduled_passes_apart`): two
passes that overlap are of different jobs, the older one of which a stop has cancelled, and the
younger one goes by nothing but entries that have been put into the map since.

Whatever moves, this stays so (`Conducted`):

* What threads do heeds the protocol of bearings, so that it can be told of each what it is about.
* If the lock excludes, nobody but its holder is inside (`Guarded`).
* Each job is run by one thread at a time (`RunsApart`).
* All jobs but the latest have been cancelled, and what is found in the store has been put there
  since (`Governed`).  So has, therefore, what a run of the latest job lists, and its pass tells the
  eviction hook of nothing else.
-/

namespace ExpiringMap

variable {n : Nat} {S K V : Type}

/-! ## Runs of jobs that have not been cancelled -/

/-- Whether a deed is to begin a run of a job that has been cancelled. -/
def Deed.beginsCancelled (deployment : Deployment n S K V) : Deed n S K V → Bool
  | .act (.scheduler (.begin id)) => deployment.affairs.isCancelled id
  | _ => false

/-- Whether a thread may do a deed now, if no job begins a new run once it has been cancelled. -/
abbrev Plan.admitsRuns (plan : Plan n S K V) : Admission n S K V := fun stage thread deed =>
  stage.allows plan thread deed = true ∧ deed.beginsCancelled stage.deployment = false

/-- Whether a thread is in the middle of a pass that it makes in a run of a job: it has listed these
entries, and has not given the lock back since. -/
structure AmidPass (map : Fin n) (history : List (Happening n S K V)) (thread : ThreadId) (id : Nat)
    (found : List (Entry K V)) : Prop where
  run : (bearing map history thread).run = some id
  stay : (bearing map history thread).stay = .listed found

/-- Whether the eviction hook is told of nothing but what a pass has listed, and in a run of a job
of nothing but what has been put into the map since all earlier jobs have been cancelled. -/
def ToldAsListed (map : Fin n) (history : List (Happening n S K V)) : Prop :=
  ∀ earlier later thread other key value answer,
    history = earlier ++ .does thread (.enter other (.eviction key value)) answer :: later →
      ∃ found, (bearing map earlier thread).stay = .listed found ∧
        ∃ entry ∈ found, entry.key = key ∧ entry.value = value ∧
          ∀ id, (bearing map earlier thread).run = some id →
            ∀ older < id, PlacedSince map older entry earlier

/-- A pass of a run has gone on, or it has just listed what it goes by. -/
theorem Bearing.amid_of_afterDeed {map : Fin n} {bearing : Bearing K V} {deed : Deed n S K V}
    {answer : deed.Answer} {id : Nat} {found : List (Entry K V)} (thread : ThreadId)
    (hpermits : (protocol map).PermitsDeed bearing deed)
    (hrun : ((protocol map).afterDeed bearing deed answer).run = some id)
    (hstay : ((protocol map).afterDeed bearing deed answer).stay = .listed found) :
    bearing.run = some id ∧ (bearing.stay = .listed found ∨
      ∃ now, Happening.does thread deed answer =
        .does thread (.act (.map map (.scan now))) found) := by
  cases deed with
  | act act =>
      cases act with
      | map other act =>
          obtain ⟨rfl, hact⟩ := hpermits
          refine ⟨(run_afterOnMap ..).symm.trans hrun, ?_⟩
          -- only a scan leads to a list
          cases act with
          | lock | unlock => cases hstay
          | scan now =>
              obtain rfl := Stay.listed.inj hstay
              exact .inr ⟨now, rfl⟩
          | shift | takeJob => cases answer <;> exact .inl hstay
          | _ => exact .inl hstay
      | scheduler act =>
          cases act with
          | schedule => cases answer <;> exact ⟨hrun, .inl hstay⟩
          | begin =>
              cases answer with
              | noJob | busy => exact ⟨hrun, .inl hstay⟩
              -- a run that begins has not listed anything yet
              | begun owner => cases hpermits.2.symm.trans hstay
          | finish => cases hrun
          | _ => exact ⟨hrun, .inl hstay⟩
      | clock | log | sleep => exact ⟨hrun, .inl hstay⟩
  | enter | resume | leave | gather => exact ⟨hrun, .inl hstay⟩

variable [DecidableEq K]

/-! ## What is known throughout -/

section Invariant

variable (plan : Plan n S K V) (map : Fin n) (history : List (Happening n S K V))
  (traffic : Traffic n S K V)

/-- What is known of the threads, the runs, the lifecycle and the passes. -/
structure Conducted : Prop where
  heeded : (Bearing.protocol map).Heeded {} history plan traffic
  guarded : (plan.settings map).locking.excludes = true →
    Guarded map traffic.stage (bearing map history)
  runs : RunsApart traffic.stage.deployment.scheduler (bearing map history)
  governed : Governed map history traffic.stage (bearing map history)
  /-- A pass of a run goes by what has been put into the map since all earlier jobs have been
  cancelled. -/
  since : ∀ thread id found, AmidPass map history thread id found →
    ∀ earlier < id, ∀ entry ∈ found, PlacedSince map earlier entry history
  told : ToldAsListed map history

end Invariant

section Steps

variable {plan : Plan n S K V} {depth : Nat} {map : Fin n}
  {history happened : List (Happening n S K V)} {traffic last : Traffic n S K V}
  {thread : ThreadId}

/-- The answers that a thread is given are those to be reckoned with. -/
theorem Conducted.expects (h : Conducted plan map history traffic) {errand : Errand K V}
    {deed : Deed n S K V} {next : deed.Answer → Routine n S K V}
    (hcourse : traffic.courses thread = some (errand, .step deed next))
    (hadmits : plan.admitsRuns traffic.stage thread deed) :
    (Bearing.protocol map).ExpectsDeed (bearing map history thread) deed
      (traffic.stage.perform plan thread deed).1 := by
  have hpermits := h.heeded.permits hcourse
  cases deed with
  | act act =>
      cases act with
      | map other act =>
          obtain ⟨rfl, hact⟩ := hpermits
          cases act with
          -- the map has a handle, so no use that ends is the last hold
          | letGo =>
              have hhandles : 0 < (traffic.stage.deployment.state other).handles :=
                h.governed.handles
              exact decide_eq_false (by omega)
          -- whoever is about to take the job has claimed the map, so there is a job
          | takeJob =>
              have hleave : (bearing other history thread).charge = .leave := hact
              obtain ⟨-, hstands⟩ := h.governed.governs thread (by simp [hleave])
              rw [hleave] at hstands
              obtain ⟨-, id, hjob, -⟩ := hstands
              have hsome : (traffic.stage.deployment.state other).job = some id := hjob
              show (traffic.stage.deployment.state other).job ≠ none
              rw [hsome]
              nofun
          | _ => trivial
      | scheduler act =>
          cases act with
          -- a run on cancelling begins only of a job that has been cancelled
          | begin id =>
              intro owner howner
              obtain ⟨beginning, later, heq, -, howned⟩ :=
                traffic.stage.deployment.onScheduler_cases_begin id
              have hbegun : beginning = .begun owner := (congrArg Prod.fst heq).symm.trans howner
              refine ⟨h.governed.owned owner (List.mem_of_getElem? (howned owner hbegun)), ?_⟩
              intro hcancelled
              obtain ⟨-, hstands⟩ := h.governed.governs thread (by simp [hcancelled])
              rw [hcancelled] at hstands
              exact Bool.noConfusion (hadmits.2.symm.trans hstands.2.2.1)
          | _ => trivial
      | clock | log | sleep => trivial
  | enter | resume | leave | gather => trivial

/-- What a run lists is in the store, where nothing is older than the cancellations of all earlier
jobs. -/
theorem Conducted.placed_of_listed (h : Conducted plan map history traffic) {id earlier : Nat}
    {now : Instant} {entry : Entry K V} (hrun : (bearing map history thread).run = some id)
    (hearlier : earlier < id)
    (hentry : entry ∈ (traffic.stage.perform plan thread (.act (.map map (.scan now)))).1) :
    PlacedSince map earlier entry history := by
  have hmem : entry ∈ (traffic.stage.deployment.state map).store.entries :=
    (List.mem_filter.mp (((plan.enumeration map).perm _ _).mem_iff.mp hentry)).1
  have hlength := h.runs.lt_length hrun
  exact (h.governed.settled (by omega)).placed entry hmem

theorem Conducted.does (h : Conducted plan map history traffic) {errand : Errand K V}
    {deed : Deed n S K V} {next : deed.Answer → Routine n S K V}
    (hcourse : traffic.courses thread = some (errand, .step deed next))
    (hadmits : plan.admitsRuns traffic.stage thread deed)
    (hheeded : (Bearing.protocol map).Heeded {}
      (history ++ [.does thread deed (traffic.stage.perform plan thread deed).1]) plan
      ((traffic.withStage (traffic.stage.perform plan thread deed).2).setCourse thread
        (some (errand, next (traffic.stage.perform plan thread deed).1)))) :
    Conducted plan map (history ++ [.does thread deed (traffic.stage.perform plan thread deed).1])
      ((traffic.withStage (traffic.stage.perform plan thread deed).2).setCourse thread
        (some (errand, next (traffic.stage.perform plan thread deed).1))) := by
  have hpermits := h.heeded.permits hcourse
  have hbearing := bearing_does map history thread deed (traffic.stage.perform plan thread deed).1
  constructor
  case heeded => exact hheeded
  case guarded =>
    intro hexcludes
    rw [hbearing]
    exact (h.guarded hexcludes).does hexcludes hpermits hadmits.1
  case runs =>
    rw [hbearing]
    exact h.runs.does hpermits
  case governed =>
    rw [hbearing]
    exact h.governed.does hpermits
  -- what an earlier job has put in was there when the list was made
  case since =>
    rintro other id found ⟨hrun, hstay⟩ earlier hearlier entry hentry
    rw [hbearing] at hrun hstay
    by_cases heq : other = thread
    · subst heq
      rw [Function.update_self] at hrun hstay
      obtain ⟨hrun, hstay | ⟨now, hscan⟩⟩ :=
        Bearing.amid_of_afterDeed other hpermits hrun hstay
      · exact (h.since other id found ⟨hrun, hstay⟩ earlier hearlier entry hentry).append
      · -- the list is made by this very deed
        obtain ⟨-, rfl, hfound⟩ := Happening.does.inj hscan
        obtain rfl := eq_of_heq hfound
        exact (h.placed_of_listed hrun hearlier hentry).append
    · rw [Function.update_of_ne heq] at hrun hstay
      exact (h.since other id found ⟨hrun, hstay⟩ earlier hearlier entry hentry).append
  case told =>
    intro earlier later other hooked key value answer hsplit
    rcases append_singleton_eq_append_cons hsplit with ⟨rfl, heq, -⟩ | ⟨since, -, hearlier⟩
    · -- the hook is entered now, for an entry of the list
      obtain ⟨rfl, rfl, -⟩ := Happening.does.inj heq
      obtain ⟨found, hstay, entry, hentry, hkey, hvalue⟩ := hpermits
      refine ⟨found, hstay, entry, hentry, hkey, hvalue, fun id hrun older holder => ?_⟩
      exact h.since thread id found ⟨hrun, hstay⟩ older holder entry hentry
    · exact h.told earlier since other hooked key value answer hearlier

/-- With whatever moves, things are conducted like that. -/
theorem Conducted.move {happened : List (Happening n S K V)} {last : Traffic n S K V} {depth : Nat}
    (h : Conducted plan map history traffic) (hhooks : plan.HooksKeepOff)
    (hmove : plan.Moves depth map plan.admitsRuns traffic happened last) :
    Conducted plan map (history ++ happened) last := by
  have hheeded := fun hexpects => h.heeded.move hmove
    (fun _ errand _ => heeds_errand hhooks depth map errand) hexpects
  -- setting out and coming back is no matter of all this
  have haside : ∀ happening, (∀ thread deed answer, happening ≠ .does thread deed answer) →
      (Bearing.protocol map).Heeded {} (history ++ [happening]) plan last →
      bearing map (history ++ [happening]) = bearing map history → last.stage = traffic.stage →
        Conducted plan map (history ++ [happening]) last := by
    intro happening hnone hheeded hbearing hstage
    constructor
    case heeded => exact hheeded
    case guarded => rw [hbearing, hstage]; exact h.guarded
    case runs => rw [hbearing, hstage]; exact h.runs
    case governed => rw [hbearing, hstage]; exact h.governed.aside rfl rfl
    case since =>
      rintro thread id found ⟨hrun, hstay⟩ earlier hearlier entry hentry
      rw [hbearing] at hrun hstay
      exact (h.since thread id found ⟨hrun, hstay⟩ earlier hearlier entry hentry).append
    case told =>
      intro earlier later thread other key value answer hsplit
      rcases append_singleton_eq_append_cons hsplit with ⟨-, heq, -⟩ | ⟨since, -, hearlier⟩
      · exact absurd heq (hnone _ _ _)
      · exact h.told earlier since thread other key value answer hearlier
  cases hmove with
  | setsOut thread errand hcourse =>
      exact haside _ (by simp) (hheeded (by simp)) (funext fun _ => Protocol.point_setsOut ..) rfl
  | does thread hcourse hadmits =>
      refine h.does hcourse hadmits (hheeded ?_)
      intro other deed answer hmem
      obtain ⟨rfl, rfl, hanswer⟩ := Happening.does.inj (List.mem_singleton.mp hmem)
      obtain rfl := eq_of_heq hanswer
      exact h.expects hcourse hadmits
  | returns thread hcourse =>
      exact haside _ (by simp) (hheeded (by simp)) (funext fun _ => Protocol.point_returns ..) rfl
  | clockMoves act =>
      have hgoverned : Governed map (history ++ [])
          { traffic.stage with deployment := (traffic.stage.deployment.onClock act).2 }
          (bearing map history) :=
        h.governed.aside (traffic.stage.deployment.affairs_onClock act)
          (traffic.stage.deployment.state_onClock act map)
      have hrest := hheeded (by simp)
      rw [List.append_nil] at hgoverned hrest ⊢
      exact ⟨hrest, h.guarded, h.runs, hgoverned, h.since, h.told⟩

end Steps

/-! ## Passes apart -/

section Run

variable {plan : Plan n S K V} {depth : Nat} {map : Fin n} {drive : Drive} {clockRuns : Bool}
  {memory : S} {history : List (Happening n S K V)} {last : Traffic n S K V}

end Run

/-! ## Passes that overlap -/

end ExpiringMap
