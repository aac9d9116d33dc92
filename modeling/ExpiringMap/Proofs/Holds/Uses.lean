import ExpiringMap.Proofs.Jobs.Service
import ExpiringMap.Proofs.Operation.Moments

/-!
# What is done with a map in use

Whoever takes the lock of a map, does something to its entries or its phase, consults a hook of it
or writes to its log, has taken the map into use before (`Step.Engages`).  Most operations do all of
that at one map, and leave holds and jobs as they are (`Step.IsAt`).
-/

namespace ExpiringMap

variable {n : Nat} {S K V α : Type}

/-! ## Steps that need a map in use -/

/-- Whether an act may only be done on a map in use.  The others take the map into use, or take the
job out that it keeps. -/
def MapAct.NeedsUse : MapAct K V → Prop
  | borrow | hold | takeHandle | takeJob => False
  | _ => True

/-- Whether a step may only be taken while a map is in use: an act on the map, the consultation of
one of its hooks, or a record in its log. -/
def Step.Engages (map : Fin n) : Step n K V → Prop
  | .act (.map other done) => other = map ∧ done.NeedsUse
  | .act (.log other _) | .consult other _ => other = map
  | _ => False

/-- Whether a step is one that is taken at a map and is no matter of holds and jobs. -/
def Step.IsAt (map : Fin n) : Step n K V → Prop
  | .act (.map other done) => other = map ∧ ∀ affair, done.onAffair affair = affair
  | .act (.log other _) | .consult other _ => other = map
  | .act (.scheduler done) => done.LeavesJobs
  | .act (.clock _) | .act (.sleep _) => True

theorem Step.IsAt.eq_of_engages {map other : Fin n} {step : Step n K V} (h : step.IsAt map)
    (hengages : step.Engages other) : other = map := by
  cases step with
  | consult _ _ => exact hengages.symm.trans h
  | act act =>
      cases act with
      | map _ _ => exact hengages.1.symm.trans h.1
      | log _ _ => exact hengages.symm.trans h
      | clock | scheduler | sleep => exact hengages.elim

theorem Step.IsAt.affairs_eq [DecidableEq K] {map : Fin n} {act : Act n K V}
    (h : (Step.act act).IsAt map) (plan : Plan n S K V) (deployment : Deployment n S K V) :
    (deployment.perform plan.enumeration act).2.affairs = deployment.affairs := by
  cases act with
  | map other act => exact (Deployment.affairs_onMap ..).trans (Affairs.change_eq_self (h.2 _))
  | clock act => exact deployment.affairs_onClock act
  | scheduler act => exact deployment.affairs_onScheduler act h
  | log other record => exact deployment.affairs_logged other record
  | sleep ns => exact deployment.affairs_elapse ns

theorem Step.Asks.isAt {map : Fin n} {step : Step n K V} (h : step.Asks map) : step.IsAt map := by
  cases step with
  | consult _ _ => exact h
  | act act =>
      cases act with
      | log _ record => cases record <;> first | exact h | exact h.elim
      | map | clock | scheduler | sleep => exact h.elim

/-! ## Operations at a map -/

namespace Operation

open Program

variable (map : Fin n)

theorem isAt_onMap {act : MapAct K V} (hact : ∀ affair, act.onAffair affair = affair) :
    (onMap map act).Every (Step.IsAt map) :=
  ⟨⟨rfl, hact⟩, fun _ => trivial⟩

theorem isAt_log (record : LogRecord) :
    (log (K := K) (V := V) map record).Every (Step.IsAt map) :=
  ⟨rfl, fun _ => trivial⟩

theorem isAt_now : (now : Operation n K V Instant).Every (Step.IsAt map) :=
  ⟨trivial, fun _ => trivial⟩

theorem isAt_guarded {body : Operation n K V α} (h : body.Every (Step.IsAt map)) :
    (guarded map body).Every (Step.IsAt map) :=
  every_guarded ⟨rfl, fun _ => rfl⟩ ⟨rfl, fun _ => rfl⟩ h

/-- An entry is placed under a new number and with a new reading of the clock. -/
theorem isAt_placing {place : Nat → Instant → Operation n K V α}
    (hplace : ∀ seq now, (place seq now).Every (Step.IsAt map)) :
    (guarded map do
      let seq ← reserve map
      let now ← now
      place seq now).Every (Step.IsAt map) :=
  isAt_guarded map <| every_bind (isAt_onMap map fun _ => rfl) fun seq =>
    every_bind (isAt_now map) fun now => hplace seq now

theorem isAt_pass : (pass (K := K) (V := V) map).Every (Step.IsAt map) := by
  have hsize : (size (K := K) (V := V) map).Every (Step.IsAt map) := isAt_onMap map fun _ => rfl
  refine isAt_guarded map (every_bind hsize fun count => ?_)
  refine every_bind (isAt_log map _) fun _ => every_bind hsize fun count => ?_
  split
  · trivial
  refine every_bind (isAt_now map) fun now => ?_
  refine every_bind (isAt_onMap map fun _ => rfl) fun found => ?_
  refine every_bind ((asks_screen map found).mono fun _ => Step.Asks.isAt) fun screened => ?_
  rcases screened with panic | _ | ⟨first, others⟩
  · trivial
  · trivial
  refine every_bind ?_ fun _ => trivial
  refine every_bind ((asks_notifyAll map _).mono fun _ => Step.Asks.isAt) fun confirmed => ?_
  refine every_bind ((removes_removeAll map confirmed).mono ?_) fun _ => isAt_log map _
  rintro _ ⟨entry, -, rfl⟩
  exact ⟨rfl, fun _ => rfl⟩

theorem isAt_scheduledPass : (scheduledPass (K := K) (V := V) map).Every (Step.IsAt map) := by
  refine every_bind (isAt_onMap map fun _ => rfl) fun phase => ?_
  split
  · refine every_bind (isAt_log map _) fun _ => every_bind (isAt_pass map) fun outcome => ?_
    cases outcome with
    | ok _ => trivial
    | error panic => exact isAt_log map _
  · exact isAt_log map _

theorem isAt_awaitSize (count patience : Nat) :
    (awaitSize (K := K) (V := V) map count patience).Every (Step.IsAt map) := by
  have hsize : (size (K := K) (V := V) map).Every (Step.IsAt map) := isAt_onMap map fun _ => rfl
  induction patience with
  | zero => exact every_bind hsize fun _ => trivial
  | succ patience ih =>
      refine every_bind hsize fun size => ?_
      split
      · trivial
      · exact every_bind ⟨trivial, fun _ => trivial⟩ fun _ => ih

/-- What is asked of a map through a handle is done at the map, unless it is about the lifecycle or
the handles of the map. -/
theorem isAt_serveMap (settings : Settings n S K V) {asked : MapRequest K V}
    (hstart : asked ≠ .start) (hstop : asked ≠ .stop) (hhandle : asked ≠ .addHandle) :
    (serveMap settings map asked).Every (Step.IsAt map) := by
  have hplain : ∀ {act : MapAct K V}, (∀ affair, act.onAffair affair = affair) →
      (onMap map act).Every (Step.IsAt map) := isAt_onMap map
  cases asked with
  | get key =>
      refine every_bind (isAt_guarded map ?_) fun _ => trivial
      exact every_bind (isAt_now map) fun _ => hplain fun _ => rfl
  | put key value timeout =>
      exact every_bind (isAt_placing map fun _ _ => hplain fun _ => rfl) fun _ => trivial
  | putIfAbsent key value timeout =>
      exact every_bind (isAt_placing map fun _ _ => hplain fun _ => rfl) fun _ => trivial
  | remove key => exact every_bind (isAt_guarded map (hplain fun _ => rfl)) fun _ => trivial
  | purge => exact every_bind (isAt_pass map) fun _ => trivial
  | size => exact every_bind (hplain fun _ => rfl) fun _ => trivial
  | isEmpty => exact every_bind (hplain fun _ => rfl) fun _ => trivial
  | phase => exact every_bind (hplain fun _ => rfl) fun _ => trivial
  | name => trivial
  | interval => trivial
  | isSchedulerShutdown => exact every_bind ⟨trivial, fun _ => trivial⟩ fun _ => trivial
  | describe layout =>
      exact every_bind (hplain fun _ => rfl) fun _ => every_bind (hplain fun _ => rfl) fun _ =>
        trivial
  | awaitSize count => exact every_bind (isAt_awaitSize map count _) fun _ => trivial
  | start => exact absurd rfl hstart
  | stop => exact absurd rfl hstop
  | addHandle => exact absurd rfl hhandle

end Operation

end ExpiringMap
