import ExpiringMap.Proofs.Lifecycle.Position
import ExpiringMap.Proofs.Reachable
import Mathlib.Data.List.Chain

/-!
# The order of a contention

A contention is in order (`Contention.Orderly`) if at most one call is between its first act on the
phase and its last, and what the phase, the job, the record and the successes so far are like goes
with the position of that call; with nobody in between, the map is stopped without a job or started
with one.  Every move keeps this order (`Orderly.move`): a call that is outside gets no further than
to its first act on the phase unless the map is in the phase that it needs, which it is only while
nobody is in between.
-/

namespace ExpiringMap

variable {n : Nat} {S K V : Type}

namespace Contention

/-- What can be said of a call that is not between its first act on the phase and its last. -/
inductive Outside (map : Fin n) (history : List (Performed n K V)) (number : Nat) :
    Attempt n K V → Prop
  /-- It has not performed anything. -/
  | begun (call : LifecycleCall) (interval : Duration) :
      (∀ done ∈ history, done.number ≠ number) →
      Outside map history number ⟨call, call.operation map interval⟩
  /-- It has found the map in another phase than the one it needs. -/
  | failed (call : LifecycleCall) (error : Error) :
      (∀ done ∈ history, done.number = number →
        done.claims map = false ∧ done.takesJob map = false) →
      Outside map history number ⟨call, .done (.error error)⟩
  /-- It has set the phase. -/
  | ended (call : LifecycleCall) (result : Except Error Unit) :
      (∃ done ∈ history, done.number = number ∧ done.sets map = true) →
      Outside map history number ⟨call, .done result⟩

/-- The last act that has changed the phase of the map. -/
def lastWrite? (map : Fin n) (scene : Contention n S K V) : Option (Performed n K V) :=
  scene.history.find? fun done => done.claims map || done.sets map

/-- What can be said when a call is at a position. -/
structure Inside (map : Fin n) (scene : Contention n S K V) (number : Nat) (position : Position) :
    Prop where
  attempt : ∃ rest, scene.attempts number = some ⟨position.call, rest⟩ ∧ position.Ahead map rest
  between : scene.Between map number
  phase : (scene.deployment.state map).phase = position.phase
  job : (scene.deployment.state map).job.isSome = position.hasJob
  claim : ∃ claim, scene.lastWrite? map = some claim ∧ claim.number = number ∧
    claim.claims map = true ∧
    claim.act = .map map (.shift position.call position.call.needs position.phase)
  last : scene.successes.getLast? = some .start ↔ position.call = .stop

/-- What can be said when no call is in between. -/
structure Idle (map : Fin n) (scene : Contention n S K V) : Prop where
  phase : (scene.deployment.state map).phase = .stopped ∨
    (scene.deployment.state map).phase = .started
  job : (scene.deployment.state map).job.isSome = true ↔
    (scene.deployment.state map).phase = .started
  last : scene.successes.getLast? = some .start ↔
    (scene.deployment.state map).phase = .started

/-- The invariant of a contention in which this call is at this position, if any is. -/
structure Orderly (map : Fin n) (scene : Contention n S K V) (occupant : Option (Nat × Position)) :
    Prop where
  handle : (scene.deployment.state map).hasHandle = true
  unknown : ∀ number, scene.attempts number = none →
    ∀ done ∈ scene.history, done.number ≠ number
  outside : ∀ number attempt, scene.attempts number = some attempt →
    (∀ position, occupant ≠ some (number, position)) → Outside map scene.history number attempt
  inside : ∀ number position, occupant = some (number, position) → Inside map scene number position
  idle : occupant = none → Idle map scene
  alternate : scene.successes.IsChain (· ≠ ·)
  first : ∀ call ∈ scene.successes.head?, call = .start

variable {map : Fin n} {scene : Contention n S K V} {number : Nat} {attempt : Attempt n K V}

/-! ### Calls outside -/

namespace Outside

theorem not_between (h : Outside map scene.history number attempt) :
    ¬ scene.Between map number := by
  rintro ⟨⟨done, hdone, hnumber, hclaims⟩, hsets⟩
  cases h with
  | begun call interval hnone => exact hnone done hdone hnumber
  | failed call error hnone =>
      have hfalse := (hnone done hdone hnumber).1
      exact Bool.noConfusion (hclaims.symm.trans hfalse)
  | ended call result hset =>
      obtain ⟨last, hlast, hsame, hset⟩ := hset
      exact Bool.noConfusion (hset.symm.trans (hsets last hlast hsame))

/-- A call outside that has an act before it has not performed anything. -/
theorem of_act {call : LifecycleCall} {step : Step n K V}
    {next : step.Answer → Operation n K V (Except Error Unit)}
    (h : Outside map scene.history number ⟨call, .act step next⟩) :
    (∀ done ∈ scene.history, done.number ≠ number) ∧
      ∃ interval, call.operation map interval = .act step next := by
  generalize hattempt : (⟨call, .act step next⟩ : Attempt n K V) = attempt at h
  cases h with
  | begun other interval hnone =>
      obtain ⟨rfl, hrest⟩ := Attempt.mk.inj hattempt
      exact ⟨hnone, interval, hrest.symm⟩
  | failed other error hnone => cases hattempt
  | ended other result hset => cases hattempt

/-- Acts for other calls leave a call outside. -/
theorem cons (h : Outside map scene.history number attempt) {done : Performed n K V}
    (hne : done.number ≠ number) : Outside map (done :: scene.history) number attempt := by
  cases h with
  | begun call interval hnone => exact .begun call interval (by simpa [hne] using hnone)
  | failed call error hnone =>
      refine .failed call error fun other hother hnumber => ?_
      rcases List.mem_cons.mp hother with rfl | hother
      · exact absurd hnumber hne
      · exact hnone other hother hnumber
  | ended call result hset =>
      obtain ⟨last, hlast, hset⟩ := hset
      exact .ended call result ⟨last, List.mem_cons_of_mem _ hlast, hset⟩

/-- The only act that a call outside may have before it is the one that claims the map. -/
theorem next?_eq (h : Outside map scene.history number attempt) {act : Act n K V}
    (hnext : attempt.next? = some act) :
    act = .map map (.shift attempt.call attempt.call.needs attempt.call.entry.phase) := by
  cases h with
  | begun call interval hnone =>
      obtain ⟨next, hoperation, -⟩ := Operation.operation_ahead (K := K) (V := V) call map interval
      rw [hoperation] at hnext
      exact (Option.some.inj hnext).symm
  | failed call error hnone => simp [Attempt.next?] at hnext
  | ended call result hset => simp [Attempt.next?] at hnext

theorem not_atJob (h : Outside map scene.history number attempt)
    (hattempt : scene.attempts number = some attempt) : ¬ scene.AtJob map number := by
  have hnext : ∀ act, scene.next? number = some act →
      act = .map map (.shift attempt.call attempt.call.needs attempt.call.entry.phase) := by
    intro act hact
    rw [Contention.next?, hattempt] at hact
    exact h.next?_eq hact
  -- to be at the job slot one has to claim the map first, and a call outside has not done that
  rintro (⟨id, hkeep⟩ | htake | ⟨⟨done, hdone, hnumber, htakes⟩, hsets⟩)
  · exact absurd (hnext _ hkeep) (by simp)
  · exact absurd (hnext _ htake) (by simp)
  · cases h with
    | begun call interval hnone => exact hnone done hdone hnumber
    | failed call error hnone =>
        have hfalse := (hnone done hdone hnumber).2
        exact Bool.noConfusion (htakes.symm.trans hfalse)
    | ended call result hset =>
        obtain ⟨last, hlast, hsame, hset⟩ := hset
        exact Bool.noConfusion (hset.symm.trans (hsets last hlast hsame))

end Outside

/-! ### What single moves do -/

section Moves

@[simp] theorem attempts_setAttempt_self (scene : Contention n S K V) (number : Nat)
    (attempt : Attempt n K V) : (scene.setAttempt number attempt).attempts number = some attempt :=
  Function.update_self ..

theorem attempts_setAttempt_of_ne (scene : Contention n S K V) {number other : Nat}
    (attempt : Attempt n K V) (h : other ≠ number) :
    (scene.setAttempt number attempt).attempts other = scene.attempts other :=
  Function.update_of_ne h ..

theorem successes_setAttempt (scene : Contention n S K V) (number : Nat) {attempt : Attempt n K V}
    (h : attempt.HasSucceeded) :
    (scene.setAttempt number attempt).successes = scene.successes ++ [attempt.call] :=
  if_pos h

theorem successes_setAttempt_of_not (scene : Contention n S K V) (number : Nat)
    {attempt : Attempt n K V} (h : ¬ attempt.HasSucceeded) :
    (scene.setAttempt number attempt).successes = scene.successes :=
  if_neg h

/-- An act that neither claims the map nor sets its phase leaves a call where it is between. -/
theorem Between.cons (h : scene.Between map number) {later : Contention n S K V}
    {done : Performed n K V} (hhistory : later.history = done :: scene.history)
    (hsets : done.sets map = false) : later.Between map number := by
  obtain ⟨⟨claim, hclaim, hnumber, hclaims⟩, hnone⟩ := h
  refine ⟨⟨claim, hhistory ▸ List.mem_cons_of_mem _ hclaim, hnumber, hclaims⟩, ?_⟩
  intro other hother hsame
  rw [hhistory] at hother
  rcases List.mem_cons.mp hother with rfl | hother
  · exact hsets
  · exact hnone other hother hsame

theorem lastWrite?_of_cons {later : Contention n S K V} {done : Performed n K V}
    (hhistory : later.history = done :: scene.history) (hclaims : done.claims map = false)
    (hsets : done.sets map = false) : later.lastWrite? map = scene.lastWrite? map := by
  simp [lastWrite?, hhistory, hclaims, hsets]

/-- A call stays at its position while nothing happens to the lifecycle. -/
theorem Inside.stays {position : Position} (h : Inside map scene number position)
    {later : Contention n S K V}
    (hattempt : ∃ rest, later.attempts number = some ⟨position.call, rest⟩ ∧
      position.Ahead map rest)
    (hbetween : later.Between map number)
    (hwrite : later.lastWrite? map = scene.lastWrite? map)
    (hphase : (later.deployment.state map).phase = (scene.deployment.state map).phase)
    (hjob : (later.deployment.state map).job = (scene.deployment.state map).job)
    (hsuccesses : later.successes = scene.successes) : Inside map later number position where
  attempt := hattempt
  between := hbetween
  phase := hphase.trans h.phase
  job := (congrArg Option.isSome hjob).trans h.job
  claim := hwrite ▸ h.claim
  last := hsuccesses ▸ h.last

theorem Idle.stays (h : Idle map scene) {later : Contention n S K V}
    (hphase : (later.deployment.state map).phase = (scene.deployment.state map).phase)
    (hjob : (later.deployment.state map).job = (scene.deployment.state map).job)
    (hsuccesses : later.successes = scene.successes) : Idle map later where
  phase := by rw [hphase]; exact h.phase
  job := by rw [hphase, hjob]; exact h.job
  last := by rw [hphase, hsuccesses]; exact h.last

variable {occupant : Option (Nat × Position)}

/-- Whatever goes on beside the calls leaves the contention in order. -/
theorem Orderly.meanwhile (h : Orderly map scene occupant) (deployment : Deployment n S K V)
    (hphase : (deployment.state map).phase = (scene.deployment.state map).phase)
    (hjob : (deployment.state map).job = (scene.deployment.state map).job)
    (hhandle : (deployment.state map).hasHandle = true) :
    Orderly map { scene with deployment } occupant where
  handle := hhandle
  unknown := h.unknown
  outside := h.outside
  inside number position hoccupant :=
    have hinside := h.inside number position hoccupant
    hinside.stays hinside.attempt hinside.between rfl hphase hjob rfl
  idle hnone := (h.idle hnone).stays hphase hjob rfl
  alternate := h.alternate
  first := h.first

theorem not_hasSucceeded_operation (map : Fin n) (call : LifecycleCall) (interval : Duration) :
    ¬ (⟨call, call.operation map interval⟩ : Attempt n K V).HasSucceeded := by
  obtain ⟨next, hoperation, -⟩ := Operation.operation_ahead (K := K) (V := V) call map interval
  simp [hoperation, Attempt.HasSucceeded]

/-- A call may come further without performing anything. -/
theorem Orderly.comesTo (h : Orderly map scene occupant) (hopen : ¬ attempt.HasSucceeded)
    (hout : (∀ position, occupant ≠ some (number, position)) →
      Outside map scene.history number attempt)
    (hin : ∀ position, occupant = some (number, position) →
      attempt.call = position.call ∧ position.Ahead map attempt.rest) :
    Orderly map (scene.setAttempt number attempt) occupant := by
  have hsame := scene.successes_setAttempt_of_not number hopen
  constructor
  case handle => exact h.handle
  case unknown =>
    intro other hother
    by_cases heq : other = number
    · subst heq
      simp at hother
    · rw [attempts_setAttempt_of_ne _ _ heq] at hother
      exact h.unknown other hother
  case outside =>
    intro other some hsome hoccupant
    by_cases heq : other = number
    · -- the attempt itself, which is outside if it has no position
      subst heq
      rw [attempts_setAttempt_self, Option.some.injEq] at hsome
      exact hsome ▸ hout hoccupant
    · rw [attempts_setAttempt_of_ne _ _ heq] at hsome
      exact h.outside other some hsome hoccupant
  case inside =>
    intro other position hoccupant
    have hinside := h.inside other position hoccupant
    refine hinside.stays ?_ hinside.between rfl rfl rfl hsame
    by_cases heq : other = number
    · -- the attempt itself, which is as far as its position says
      subst heq
      obtain ⟨hcall, hahead⟩ := hin position hoccupant
      exact ⟨attempt.rest, by rw [attempts_setAttempt_self, ← hcall], hahead⟩
    · rw [attempts_setAttempt_of_ne _ _ heq]
      exact hinside.attempt
  case idle => exact fun hnone => (h.idle hnone).stays rfl rfl hsame
  case alternate => exact hsame ▸ h.alternate
  case first => exact hsame ▸ h.first

/-- A call that is begun is outside at first. -/
theorem Orderly.begins (h : Orderly map scene occupant) (hnone : scene.attempts number = none)
    (call : LifecycleCall) (interval : Duration) :
    Orderly map (scene.setAttempt number ⟨call, call.operation map interval⟩) occupant := by
  refine h.comesTo (not_hasSucceeded_operation map call interval) (fun _ => ?_) ?_
  · exact .begun call interval (h.unknown number hnone)
  · rintro position rfl
    obtain ⟨rest, hrest, -⟩ := (h.inside number position rfl).attempt
    exact absurd (hnone.symm.trans hrest) (by simp)

/-- A hook that is consulted in the course of a call leaves the call where it is. -/
theorem Orderly.consults {call : LifecycleCall} {other : Fin n} {hook : Hook K V}
    {next : Outcome Bool → Operation n K V (Except Error Unit)} (h : Orderly map scene occupant)
    (hattempt : scene.attempts number = some ⟨call, .act (.consult other hook) next⟩)
    (verdict : Outcome Bool) :
    Orderly map (scene.setAttempt number ⟨call, next verdict⟩) occupant := by
  by_cases hin : ∃ position, occupant = some (number, position)
  · obtain ⟨position, rfl⟩ := hin
    obtain ⟨rest, hrest, hahead⟩ := (h.inside number position rfl).attempt
    obtain ⟨rfl, rfl⟩ := Attempt.mk.inj (Option.some.inj (hattempt.symm.trans hrest))
    have hnext := hahead.of_consult verdict
    refine h.comesTo (hnext.ne_done _) (fun hout => absurd rfl (hout position)) ?_
    rintro there ⟨⟩
    exact ⟨rfl, hnext⟩
  · -- a call outside consults nobody
    have hout : ∀ position, occupant ≠ some (number, position) := fun position heq =>
      hin ⟨position, heq⟩
    obtain ⟨-, interval, hoperation⟩ := (h.outside number _ hattempt hout).of_act
    obtain ⟨rest, hclaim, -⟩ := Operation.operation_ahead (K := K) (V := V) call map interval
    exact absurd (hoperation.symm.trans hclaim) (by simp)

/-! ### Acts of calls -/

variable [DecidableEq K] {plan : Plan n S K V} {call : LifecycleCall} {act : Act n K V}
  {next : act.Answer → Operation n K V (Except Error Unit)}

/-- An act of a call besides which no call is in between. -/
theorem Orderly.perform (h : Orderly map scene occupant)
    (halone : ∀ other position, occupant = some (other, position) → other = number)
    (hattempt : scene.attempts number = some ⟨call, .act (.act act) next⟩)
    (position : Option Position)
    (hhandle : ((scene.perform plan number call act next).deployment.state map).hasHandle = true)
    (hinside : ∀ there, position = some there →
      Inside map (scene.perform plan number call act next) number there)
    (hidle : position = none → Idle map (scene.perform plan number call act next) ∧
      ∀ attempt, (scene.perform plan number call act next).attempts number = some attempt →
        Outside map (scene.perform plan number call act next).history number attempt)
    (halternate : (scene.perform plan number call act next).successes.IsChain (· ≠ ·) ∧
      ∀ first ∈ (scene.perform plan number call act next).successes.head?, first = .start) :
    Orderly map (scene.perform plan number call act next)
      (position.map fun there => (number, there)) := by
  constructor
  case handle => exact hhandle
  case unknown =>
    intro other hother done hdone
    have hne : other ≠ number := by
      rintro rfl
      simp [Contention.perform] at hother
    rw [Contention.perform, attempts_setAttempt_of_ne _ _ hne] at hother
    rcases List.mem_cons.mp hdone with rfl | hdone
    · exact fun heq => hne heq.symm
    · exact h.unknown other hother done hdone
  case outside =>
    intro other attempt hother hoccupant
    by_cases heq : other = number
    · -- the call that has acted, which is outside only if it has no position any more
      subst heq
      cases position with
      | none => exact (hidle rfl).2 attempt hother
      | some there => exact absurd rfl (hoccupant there)
    · -- another call, to which nothing has happened
      rw [Contention.perform, attempts_setAttempt_of_ne _ _ heq] at hother
      refine (h.outside other attempt hother fun there hthere => ?_).cons
        fun hsame => heq hsame.symm
      exact heq (halone other there hthere)
  case inside =>
    intro other there hthere
    cases position with
    | none => simp at hthere
    | some position =>
        obtain ⟨rfl, rfl⟩ : number = other ∧ position = there := by simpa using hthere
        exact hinside position rfl
  case idle =>
    intro hnone
    exact (hidle (by simpa using hnone)).1
  case alternate => exact halternate.1
  case first => exact halternate.2

theorem deployment_perform :
    (scene.perform plan number call act next).deployment =
      (scene.deployment.perform plan.enumeration act).2 := rfl

/-- What an act on the map itself makes of the map. -/
theorem state_perform {done : MapAct K V}
    {next : done.Answer → Operation n K V (Except Error Unit)} :
    (scene.perform plan number call (.map map done) next).deployment.state map =
      done.apply (scene.deployment.state map) := by
  simp [deployment_perform, Deployment.perform]

theorem attempt_perform :
    (scene.perform plan number call act next).attempts number =
      some ⟨call, next (scene.deployment.perform plan.enumeration act).1⟩ :=
  attempts_setAttempt_self ..

omit [DecidableEq K] in
/-- If the call that is in between succeeds, the successes still alternate. -/
theorem Orderly.alternates {position : Position}
    (h : Orderly map scene (some (number, position))) :
    (scene.successes ++ [position.call]).IsChain (· ≠ ·) ∧
      ∀ first ∈ (scene.successes ++ [position.call]).head?, first = .start := by
  have hlast := (h.inside number position rfl).last
  -- the call that succeeded last was not of this kind
  have hbefore : ∀ call ∈ scene.successes.getLast?, call ≠ position.call := by
    rintro call hcall rfl
    cases hposition : position.call <;> simp_all
  refine ⟨List.isChain_append.mpr ⟨h.alternate, .singleton _, by simpa using hbefore⟩, ?_⟩
  cases hsuccesses : scene.successes with
  | nil =>
      rw [hsuccesses] at hlast
      cases hposition : position.call <;> simp_all
  | cons first rest =>
      have hfirst := h.first
      rw [hsuccesses] at hfirst
      simpa using hfirst

/-- An act that spares the map leaves the call at its position. -/
theorem Orderly.spares {position : Position} (h : Orderly map scene (some (number, position)))
    (hattempt : scene.attempts number = some ⟨position.call, .act (.act act) next⟩)
    (hspares : act.Spares map)
    (hnext : ∀ answer, act.AnswersHeld map answer → position.Ahead map (next answer)) :
    Orderly map (scene.perform plan number position.call act next) (some (number, position)) := by
  have hinside := h.inside number position rfl
  have hsame := scene.deployment.perform_spares plan.enumeration hspares
  have hahead := hnext _ (scene.deployment.perform_answersHeld plan.enumeration h.handle act)
  -- the call goes on, so it has not succeeded yet
  have hsuccesses : (scene.perform plan number position.call act next).successes =
      scene.successes := if_neg fun hdone => hahead.ne_done _ hdone
  refine h.perform (fun other there heq => by simp_all) hattempt (some position) ?_ ?_ ?_ ?_
  · rw [deployment_perform, MapState.hasHandle, hsame.handles]
    exact h.handle
  · rintro there ⟨⟩
    exact hinside.stays ⟨_, attempt_perform, hahead⟩ (hinside.between.cons rfl (hspares.sets ..))
      (lastWrite?_of_cons rfl (hspares.claims ..) (hspares.sets ..)) hsame.phase hsame.job
      hsuccesses
  · exact fun hnone => by simp at hnone
  · exact hsuccesses ▸ ⟨h.alternate, h.first⟩

/-- An act on the job of the map brings the call to the next position of its phase. -/
theorem Orderly.movesJob {position : Position} {done : MapAct K V}
    {next : done.Answer → Operation n K V (Except Error Unit)}
    (h : Orderly map scene (some (number, position))) (there : Position)
    (hattempt : scene.attempts number =
      some ⟨position.call, .act (.act (.map map done)) next⟩)
    (hdone : (∃ id, done = .keepJob id) ∨ done = .takeJob)
    (hcall : there.call = position.call) (hphase : there.phase = position.phase)
    (hjob : (done.apply (scene.deployment.state map)).job.isSome = there.hasJob)
    (hahead : there.Ahead map (next (done.answer (plan.enumeration map)
      (scene.deployment.state map)))) :
    Orderly map (scene.perform plan number position.call (.map map done) next)
      (some (number, there)) := by
  have hinside := h.inside number position rfl
  have hsuccesses : (scene.perform plan number position.call (.map map done) next).successes =
      scene.successes := if_neg fun hover => hahead.ne_done _ hover
  -- keeping or taking the job neither claims the map nor sets its phase
  have hquiet : ∀ answer, (Performed.mk number (.map map done) answer).claims map = false ∧
      (Performed.mk number (.map map done) answer).sets map = false := by
    rcases hdone with ⟨id, rfl⟩ | rfl <;> exact fun _ => ⟨rfl, rfl⟩
  refine h.perform (fun other there heq => by simp_all) hattempt (some there) ?_ ?_ ?_ ?_
  · rw [state_perform]
    rcases hdone with ⟨id, rfl⟩ | rfl <;> exact h.handle
  · rintro there ⟨⟩
    constructor
    case attempt => exact ⟨_, hcall ▸ attempt_perform, hahead⟩
    case between => exact hinside.between.cons rfl (hquiet _).2
    case phase =>
      rw [state_perform, hphase, ← hinside.phase]
      rcases hdone with ⟨id, rfl⟩ | rfl <;> rfl
    case job => rwa [state_perform]
    case claim =>
      rw [lastWrite?_of_cons rfl (hquiet _).1 (hquiet _).2, hcall, hphase]
      exact hinside.claim
    case last => rw [hsuccesses, hcall]; exact hinside.last
  · exact fun hnone => by simp at hnone
  · exact hsuccesses ▸ ⟨h.alternate, h.first⟩

/-- The last act of a call on the phase leaves the map with no call in between. -/
theorem Orderly.ends {position : Position} {phase : Phase} {result : Except Error Unit}
    (h : Orderly map scene (some (number, position)))
    (hattempt : scene.attempts number = some ⟨position.call,
      .act (.act (.map map (.setPhase phase))) fun _ => .done result⟩)
    (hphase : phase = .stopped ∧ position.hasJob = false ∨
      phase = .started ∧ position.hasJob = true)
    (hresult : result = .ok () ∧ (position.call = .start ↔ phase = .started) ∨
      (∃ error, result = .error error) ∧ position.call = .start ∧ phase = .stopped) :
    Orderly map (scene.perform plan number position.call (.map map (.setPhase phase))
      fun _ => .done result) none := by
  have hinside := h.inside number position rfl
  have hset : (Performed.mk number (.map map (.setPhase phase)) () : Performed n K V).sets map
      = true := decide_eq_true rfl
  -- a call that ends well is one more success, and one that ends with an error is none
  have hgood : result = .ok () → (scene.perform plan number position.call
      (.map map (.setPhase phase)) fun _ => .done result).successes =
        scene.successes ++ [position.call] := by
    rintro rfl
    exact successes_setAttempt _ number rfl
  have hbad : ∀ error, result = .error error → (scene.perform plan number position.call
      (.map map (.setPhase phase)) fun _ => .done result).successes = scene.successes := by
    rintro error rfl
    refine successes_setAttempt_of_not _ number ?_
    simp [Attempt.HasSucceeded]
  refine h.perform (fun other there heq => by simp_all) hattempt none ?_ (by simp) (fun _ => ?_) ?_
  · rw [state_perform]
    exact h.handle
  · -- with the position given up, phase, job and last success have to agree again
    refine ⟨⟨?_, ?_, ?_⟩, fun attempt hover => ?_⟩
    · rw [state_perform]
      exact hphase.imp And.left And.left
    · rw [state_perform]
      show (scene.deployment.state map).job.isSome = true ↔ phase = .started
      rw [hinside.job]
      rcases hphase with ⟨rfl, hjob⟩ | ⟨rfl, hjob⟩ <;> simp [hjob]
    · rw [state_perform]
      show _ ↔ phase = .started
      rcases hresult with ⟨rfl, hcall⟩ | ⟨⟨error, rfl⟩, hcall, rfl⟩
      · simpa [hgood rfl] using hcall
      · rw [hbad error rfl, hinside.last, hcall]
        simp
    · -- the call is over, and it was its own act that set the phase
      obtain rfl := Option.some.inj (attempt_perform.symm.trans hover)
      exact .ended _ _ ⟨_, List.mem_cons_self .., rfl, hset⟩
  · rcases hresult with ⟨rfl, -⟩ | ⟨⟨error, rfl⟩, -⟩
    · rw [hgood rfl]
      exact h.alternates
    · rw [hbad error rfl]
      exact ⟨h.alternate, h.first⟩

/-- The first act of a call that finds the map in the phase it needs claims the map. -/
theorem Orderly.claims {next : Except Error Unit → Operation n K V (Except Error Unit)}
    (h : Orderly map scene none)
    (hattempt : scene.attempts number = some ⟨call,
      .act (.act (.map map (.shift call call.needs call.entry.phase))) next⟩)
    (hfresh : ∀ done ∈ scene.history, done.number ≠ number)
    (hphase : (scene.deployment.state map).phase = call.needs)
    (hahead : call.entry.Ahead map (next (.ok ()))) :
    Orderly map (scene.perform plan number call
      (.map map (.shift call call.needs call.entry.phase)) next) (some (number, call.entry)) := by
  have hidle := h.idle rfl
  have hcall : call.entry.call = call := by cases call <;> rfl
  -- the phase is the one that the call needs, so it is granted the map
  have hanswer : (scene.deployment.perform plan.enumeration
      (.map map (.shift call call.needs call.entry.phase))).1 = .ok () := by
    simp [Deployment.perform, MapAct.answer, Phase.shift, hphase]
  have hahead' : call.entry.Ahead map (next (scene.deployment.perform plan.enumeration
      (.map map (.shift call call.needs call.entry.phase))).1) := hanswer ▸ hahead
  have hsuccesses : (scene.perform plan number call
      (.map map (.shift call call.needs call.entry.phase)) next).successes = scene.successes :=
    if_neg fun hover => hahead'.ne_done (.ok ()) hover
  have hclaims : (Performed.mk number (.map map (.shift call call.needs call.entry.phase))
      (scene.deployment.perform plan.enumeration
        (.map map (.shift call call.needs call.entry.phase))).1 : Performed n K V).claims map
      = true := by
    rw [hanswer]
    exact decide_eq_true rfl
  refine h.perform (by simp) hattempt (some call.entry) ?_ ?_ (by simp) ?_
  · rw [state_perform]
    exact h.handle
  · rintro there ⟨⟩
    constructor
    case attempt => exact ⟨_, by rw [attempt_perform, hcall], hahead'⟩
    case between =>
      -- the first act of the call is this claim, since its number is not in the history yet
      refine ⟨⟨_, List.mem_cons_self .., rfl, hclaims⟩, ?_⟩
      intro done hdone hnumber
      rcases List.mem_cons.mp hdone with rfl | hdone
      · rfl
      · exact absurd hnumber (hfresh done hdone)
    case phase =>
      rw [state_perform]
      simp [MapAct.apply, Phase.shift, hphase]
    case job =>
      rw [state_perform]
      show (scene.deployment.state map).job.isSome = call.entry.hasJob
      have hjob := hidle.job
      cases call <;> simp_all [LifecycleCall.needs, LifecycleCall.entry, Position.hasJob]
    case claim =>
      refine ⟨_, List.find?_cons_of_pos ((Bool.or_eq_true ..).mpr (.inl hclaims)), rfl, hclaims, ?_⟩
      rw [hcall]
    case last =>
      -- by the phase that it needs one knows which call has succeeded last
      rw [hsuccesses, hidle.last, hphase, hcall]
      cases call <;> simp [LifecycleCall.needs]
  · exact hsuccesses ▸ ⟨h.alternate, h.first⟩

/-- The first act of a call that finds the map in another phase leaves everything as it was. -/
theorem Orderly.fails {next : Except Error Unit → Operation n K V (Except Error Unit)}
    (h : Orderly map scene occupant)
    (hattempt : scene.attempts number = some ⟨call,
      .act (.act (.map map (.shift call call.needs call.entry.phase))) next⟩)
    (hout : ∀ position, occupant ≠ some (number, position))
    (hfresh : ∀ done ∈ scene.history, done.number ≠ number)
    (hphase : (scene.deployment.state map).phase ≠ call.needs)
    (hfails : ∀ error, next (.error error) = .done (.error error)) :
    Orderly map (scene.perform plan number call
      (.map map (.shift call call.needs call.entry.phase)) next) occupant := by
  set later := scene.perform plan number call
    (.map map (.shift call call.needs call.entry.phase)) next with hlater
  -- the phase is another one than the call needs, so the answer is an error and nothing changes
  obtain ⟨error, hanswer⟩ : ∃ error, (scene.deployment.perform plan.enumeration
      (.map map (.shift call call.needs call.entry.phase))).1 = .error error := by
    refine ⟨.invalidState call (scene.deployment.state map).phase, ?_⟩
    simp [Deployment.perform, MapAct.answer, Phase.shift, hphase]
  have hstate : later.deployment.state map = scene.deployment.state map := by
    rw [hlater, state_perform]
    simp [MapAct.apply, Phase.shift, hphase]
  -- that ends the call, without success
  have hover : next (scene.deployment.perform plan.enumeration
      (.map map (.shift call call.needs call.entry.phase))).1 = .done (.error error) := by
    rw [hanswer, hfails]
  have hattempt' : later.attempts number = some ⟨call, .done (.error error)⟩ := by
    rw [hlater, attempt_perform, hover]
  have hclaims : (Performed.mk number (.map map (.shift call call.needs call.entry.phase))
      (scene.deployment.perform plan.enumeration
        (.map map (.shift call call.needs call.entry.phase))).1 : Performed n K V).claims map
      = false := by
    rw [hanswer]
    rfl
  have hother : ∀ other, other ≠ number → later.attempts other = scene.attempts other :=
    fun other hne => attempts_setAttempt_of_ne _ _ hne
  have hsuccesses : later.successes = scene.successes := by
    refine successes_setAttempt_of_not _ number fun hsucceeded => ?_
    exact absurd (hover.symm.trans hsucceeded) (by simp)
  constructor
  case handle => rw [hstate]; exact h.handle
  case unknown =>
    intro other hnone done hdone
    -- an attempt that is not known is not the one that has just failed
    have hne : other ≠ number := by
      rintro rfl
      simp [hattempt'] at hnone
    rcases List.mem_cons.mp hdone with rfl | hdone
    · exact fun heq => hne heq.symm
    · exact h.unknown other (hother other hne ▸ hnone) done hdone
  case outside =>
    intro other attempt hsome hoccupant
    by_cases heq : other = number
    · -- the call that has failed made a single act, which claimed nothing
      subst heq
      obtain rfl := Option.some.inj (hattempt'.symm.trans hsome)
      refine .failed call error fun done hdone hnumber => ?_
      rcases List.mem_cons.mp hdone with rfl | hdone
      · exact ⟨hclaims, rfl⟩
      · exact absurd hnumber (hfresh done hdone)
    · -- any other call that is outside stays there
      rw [hother other heq] at hsome
      exact (h.outside other attempt hsome hoccupant).cons fun hsame => heq hsame.symm
  case inside =>
    intro other position hoccupant
    -- whoever has a position keeps it, since neither phase nor job has changed
    have hinside := h.inside other position hoccupant
    have hne : other ≠ number := fun heq => hout position (heq ▸ hoccupant)
    refine hinside.stays ?_ (hinside.between.cons rfl rfl) (lastWrite?_of_cons rfl hclaims rfl)
      (congrArg MapState.phase hstate) (congrArg MapState.job hstate) hsuccesses
    rw [hother other hne]
    exact hinside.attempt
  case idle =>
    exact fun hnone => (h.idle hnone).stays (congrArg MapState.phase hstate)
      (congrArg MapState.job hstate) hsuccesses
  case alternate => exact hsuccesses ▸ h.alternate
  case first => exact hsuccesses ▸ h.first

/-- Whatever a call does next leaves the contention in order. -/
theorem Orderly.performs (h : Orderly map scene occupant)
    (hattempt : scene.attempts number = some ⟨call, .act (.act act) next⟩) :
    ∃ occupant, Orderly map (scene.perform plan number call act next) occupant := by
  by_cases hin : ∃ position, occupant = some (number, position)
  · obtain ⟨position, rfl⟩ := hin
    obtain ⟨rest, hrest, hahead⟩ := (h.inside number position rfl).attempt
    obtain ⟨rfl, rfl⟩ := Attempt.mk.inj (Option.some.inj (hattempt.symm.trans hrest))
    have hjob := (h.inside number position rfl).job
    cases hahead.turn with
    | spares hspares hnext => exact ⟨_, h.spares hattempt hspares hnext⟩
    | givesUp error =>
        exact ⟨_, h.ends hattempt (.inl ⟨rfl, rfl⟩) (.inr ⟨⟨error, rfl⟩, rfl, rfl⟩)⟩
    | keeps id =>
        exact ⟨_, h.movesJob .kept hattempt (.inl ⟨id, rfl⟩) rfl rfl rfl rfl⟩
    | starts => exact ⟨_, h.ends hattempt (.inr ⟨rfl, rfl⟩) (.inl ⟨rfl, by simp [Position.call]⟩)⟩
    | takes hnext =>
        obtain ⟨id, hid⟩ := Option.isSome_iff_exists.mp hjob
        exact ⟨_, h.movesJob .emptied hattempt (.inr rfl) rfl rfl rfl
          (by rw [MapAct.answer, hid]; exact hnext id)⟩
    | stops => exact ⟨_, h.ends hattempt (.inl ⟨rfl, rfl⟩) (.inl ⟨rfl, by simp [Position.call]⟩)⟩
  · have hout : ∀ position, occupant ≠ some (number, position) := fun position heq =>
      hin ⟨position, heq⟩
    obtain ⟨hfresh, interval, hoperation⟩ := (h.outside number _ hattempt hout).of_act
    obtain ⟨rest, hclaim, hfails, hahead⟩ :=
      Operation.operation_ahead (K := K) (V := V) call map interval
    rw [hoperation] at hclaim
    cases hclaim
    by_cases hphase : (scene.deployment.state map).phase = call.needs
    · cases occupant with
      | none => exact ⟨_, h.claims hattempt hfresh hphase hahead⟩
      | some pair =>
          -- a call that is in between leaves the map in a phase that no call needs
          have hbetween := (h.inside pair.1 pair.2 rfl).phase
          rw [hphase] at hbetween
          cases call <;> cases hposition : pair.2 <;>
            simp [LifecycleCall.needs, Position.phase, hposition] at hbetween
    · exact ⟨_, h.fails hattempt hout hfresh hphase hfails⟩

/-- Every move leaves a contention in order that is in order. -/
theorem Orderly.move (h : Orderly map scene occupant) {later : Contention n S K V}
    (hmove : Move plan map scene later) : ∃ occupant, Orderly map later occupant := by
  cases hmove with
  | begins number call interval hnone => exact ⟨_, h.begins hnone call interval⟩
  | performs number hattempt => exact h.performs hattempt
  | consults number verdict hattempt => exact ⟨_, h.consults hattempt verdict⟩
  | meanwhile deployment hphase hjob hhandle =>
      exact ⟨_, h.meanwhile deployment hphase hjob hhandle⟩

end Moves

theorem orderly_fresh (map : Fin n) (drive : Drive) (clockRuns : Bool) (memory : S) :
    Orderly map ({ deployment := .fresh drive clockRuns memory } : Contention n S K V) none := by
  have hstate := Plan.Reachable.state_fresh (K := K) (V := V) drive clockRuns memory map
  constructor
  case handle => rw [hstate]; rfl
  case unknown => simp
  case outside => simp
  case inside => simp
  case idle => exact fun _ => ⟨.inl (by rw [hstate]), by rw [hstate]; simp, by rw [hstate]; simp⟩
  case alternate => exact .nil
  case first => simp

end Contention

end ExpiringMap
