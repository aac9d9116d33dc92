import ExpiringMap.Consultation
import ExpiringMap.Proofs.Trace

/-!
# The steps of a pass

Up to its last notification a pass has loops that do no more than to tell others, and afterwards
it has one that does no more than to change the map.
-/

namespace ExpiringMap

variable {n : Nat} {K V : Type}

/-- Whether a step does no more than to tell others: a hook is consulted or the log is written. -/
def Step.Tells : Step n K V → Prop
  | .consult .. | .act (.log ..) => True
  | _ => False

/-- Whether a step does no more than to change a map or to write the log. -/
def Step.Settles : Step n K V → Prop
  | .act (.map ..) | .act (.log ..) => True
  | _ => False

/-- Whether a step is one of those by which a pass of a map looks for what has expired: the lock is
taken, the entries are counted or listed, the clock is read, or the log is written. -/
def Step.Searches (map : Fin n) (step : Step n K V) : Prop :=
  step = .act (.map map .lock) ∨ step = .act (.map map .size) ∨
    (∃ now, step = .act (.map map (.scan now))) ∨ step = .act (.clock .read) ∨
      ∃ count, step = .act (.log map (.entryCount count))

/-- Whether a step takes one of these entries out of a map, unless its key has been given another
one. -/
def Step.Removes (map : Fin n) (entries : List (Entry K V)) (step : Step n K V) : Prop :=
  ∃ entry ∈ entries, step = .act (.map map (.removeIfSame entry.key entry.seq))

/-- Whether a step is one of those by which a pass of a map consults its hooks: a hook of that map
is consulted, or its panic is logged. -/
def Step.Asks (map : Fin n) : Step n K V → Prop
  | .consult other _ | .act (.log other (.hookPanicked _)) => other = map
  | _ => False

/-- Whether a step is one of those by which a pass of a map concludes: an entry that has been
confirmed is taken out, the lock is given back, or the log is written. -/
def Step.Concludes (map : Fin n) (confirmed : List (Entry K V)) (step : Step n K V) : Prop :=
  step.Removes map confirmed ∨ step = .act (.map map .unlock) ∨
    ∃ record, step = .act (.log map record)

theorem Step.Concludes.settles {map : Fin n} {confirmed : List (Entry K V)} {step : Step n K V}
    (h : step.Concludes map confirmed) : step.Settles := by
  rcases h with ⟨entry, -, rfl⟩ | rfl | ⟨record, rfl⟩ <;> trivial

theorem Step.Asks.tells {map : Fin n} {step : Step n K V} (h : step.Asks map) : step.Tells := by
  cases step with
  | act act =>
      cases act with
      | log other record => trivial
      | map | clock | scheduler | sleep => exact h.elim
  | consult other hook => trivial

theorem Step.Tells.ne_read {step : Step n K V} (h : step.Tells) : step ≠ .act (.clock .read) := by
  rintro rfl
  exact h

theorem Step.Settles.ne_read {step : Step n K V} (h : step.Settles) :
    step ≠ .act (.clock .read) := by
  rintro rfl
  exact h

/-! ## The loops of a pass -/

namespace Operation

open Program

variable (map : Fin n)

/-- A screening does no more than to show entries to the screening hook. -/
theorem shows_screen (entries : List (Entry K V)) :
    (screen map entries).Every fun step => ∃ entry, step = .consult map (.screening entry) := by
  induction entries with
  | nil => trivial
  | cons entry rest ih =>
      refine every_bind ⟨⟨entry, rfl⟩, fun _ => trivial⟩ fun verdict => ?_
      cases verdict with
      | error panic => trivial
      | ok valid =>
          refine every_bind ih fun accepted => ?_
          cases accepted <;> trivial

theorem asks_screen (entries : List (Entry K V)) :
    (screen map entries).Every (Step.Asks map) := by
  refine (shows_screen map entries).mono fun step => ?_
  rintro ⟨entry, rfl⟩
  rfl

theorem asks_notify (entry : Entry K V) : (notify map entry).Every (Step.Asks map) := by
  refine every_bind ⟨rfl, fun _ => trivial⟩ fun verdict => ?_
  cases verdict with
  | ok confirmed => trivial
  | error panic => exact every_bind ⟨rfl, fun _ => trivial⟩ fun _ => trivial

theorem asks_notifyAll (entries : List (Entry K V)) :
    (notifyAll map entries).Every (Step.Asks map) := by
  induction entries with
  | nil => trivial
  | cons entry rest ih =>
      exact every_bind (asks_notify map entry) fun _ => every_bind ih fun _ => trivial

theorem removes_removeAll (entries : List (Entry K V)) :
    (removeAll map entries).Every (Step.Removes map entries) := by
  induction entries with
  | nil => trivial
  | cons entry rest ih =>
      refine every_bind ⟨⟨entry, List.mem_cons_self .., rfl⟩, fun _ => trivial⟩ fun _ => ?_
      refine every_bind (ih.mono fun step => ?_) fun _ => trivial
      rintro ⟨other, hother, rfl⟩
      exact ⟨other, List.mem_cons_of_mem _ hother, rfl⟩

end Operation

end ExpiringMap
