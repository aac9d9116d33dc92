import ExpiringMap.Proofs.Paired.Runs

/-!
# Eviction hooks that panic have refused

A pass that is told of an entry by a panic goes on as if the entry had been refused, and nobody
can tell the difference but by the log.  To say so, a plan is set beside its `calmed` variant: the
eviction hooks of some maps do all that they do, also before and after calls of their own, and
refuse where they panic otherwise.  It does not matter where such a panic comes from.  A hook may
raise it itself, or let one pass that a pass within its call has ended in.

Both runs come to the same (`pass_calmed`).  In the journals one thing stands for another: where the
first run has a panic and its record, the second one has a refusal (`DiffersInPanics`).  Since
telling the hook of an entry and dealing with its answer is one part of a pass (`pairs_notify`), no
later part of it comes upon the difference, and neither does whatever goes on around the pass.
-/

namespace ExpiringMap

variable {n : Nat} {S K V : Type}

/-! ## Calm hooks -/

/-- What becomes of the panics of hooks if the eviction hooks of some maps are calm. -/
def calming (calm : Fin n → Bool) (map : Fin n) : Hook K V → Panic → Outcome Bool
  | .screening _, panic => .error panic
  | .eviction .., panic => if calm map then .ok false else .error panic

/-- The plan whose hooks do the same, but where the eviction hooks of some maps would panic in the
end, they refuse. -/
def Plan.calmed (plan : Plan n S K V) (calm : Fin n → Bool) : Plan n S K V :=
  plan.variant (calming calm) plan.enumeration

/-! ## What is told of calm hooks -/

namespace Event

/-- Whether an event is a panic of an eviction hook that might have been calm. -/
def isOutcry (calm : Fin n → Bool) : Event n K V → Bool
  | answered map (.eviction ..) (.error _) => calm map
  | _ => false

/-- Whether an event is the record of a panic of an eviction hook. -/
def isComplaint : Event n K V → Bool
  | logged _ (.hookPanicked _) => true
  | _ => false

/-- Whether an event is neither the answer of a hook nor the record of its panic. -/
def isNeutral : Event n K V → Bool
  | answered .. | logged _ (.hookPanicked _) => false
  | _ => true

/-- The hook that is called, with what it is shown. -/
def called? : Event n K V → Option (Fin n × Hook K V)
  | called map hook => some (map, hook)
  | _ => none

end Event

/-- Whether two journals tell the same, the last event first, but for panics of eviction hooks that
might have been calm: in place of such a panic and the record that follows it, the second journal
has a refusal. -/
inductive Calmed (calm : Fin n → Bool) : List (Event n K V) → List (Event n K V) → Prop
  | nil : Calmed calm [] []
  | same {events others : List (Event n K V)} {event : Event n K V} :
      event.isOutcry calm = false → Calmed calm events others →
      Calmed calm (event :: events) (event :: others)
  | refused {events others : List (Event n K V)} {map : Fin n} {key : K} {value : V}
      {panic : Panic} :
      calm map = true → Calmed calm events others →
      Calmed calm
        (.logged map (.hookPanicked panic) :: .answered map (.eviction key value) (.error panic) ::
          events)
        (.answered map (.eviction key value) (.ok false) :: others)

namespace Calmed

variable {calm : Fin n → Bool} {events others : List (Event n K V)}

theorem likeness (calm : Fin n → Bool) : Likeness (Calmed (K := K) (V := V) calm) where
  nil := .nil
  cons event hevent h := by
    refine .same ?_ h
    cases event with
    | answered map hook verdict => exact absurd trivial hevent
    | _ => rfl

theorem called (h : Calmed calm events others) :
    others.filterMap Event.called? = events.filterMap Event.called? := by
  induction h with
  | nil => rfl
  | same hevent _ ih => simp only [List.filterMap_cons, ih]
  | refused hcalm _ ih => exact ih

theorem neutral (h : Calmed calm events others) :
    others.filter Event.isNeutral = events.filter Event.isNeutral := by
  induction h with
  | nil => rfl
  | same hevent _ ih => simp only [List.filter_cons, ih]
  | refused hcalm _ ih => exact ih

theorem complaints (h : Calmed calm events others) :
    (events.filter Event.isComplaint).length =
      (others.filter Event.isComplaint).length + (events.filter (Event.isOutcry calm)).length := by
  -- a panic that is calmed is a complaint on one side only, and an outcry
  induction h with
  | nil => rfl
  | same hevent _ ih =>
      simp only [List.filter_cons, hevent]
      split
      · simp [ih]
        omega
      · simpa using ih
  | refused hcalm _ ih =>
      simp only [List.filter_cons, Event.isComplaint, Event.isOutcry, hcalm]
      simp [ih]
      omega

end Calmed

/-- How two journals differ, the last event first, if in the second one eviction hooks have refused
where they have panicked in the first one. -/
structure DiffersInPanics (calm : Fin n → Bool) (events others : List (Event n K V)) : Prop where
  /-- In place of a panic and its record there is a refusal; all else is the same, and in the same
  order. -/
  calmed : Calmed calm events others
  /-- The same hooks are called, and shown the same. -/
  called : others.filterMap Event.called? = events.filterMap Event.called?
  /-- Everything happens in both that is neither the answer of a hook nor the record of its panic,
  the summaries of passes among them. -/
  neutral : others.filter Event.isNeutral = events.filter Event.isNeutral
  /-- For each panic that might have been a refusal there is one more record of a panic. -/
  complaints : (events.filter Event.isComplaint).length =
    (others.filter Event.isComplaint).length + (events.filter (Event.isOutcry calm)).length

theorem Calmed.differsInPanics {calm : Fin n → Bool} {events others : List (Event n K V)}
    (h : Calmed calm events others) : DiffersInPanics calm events others :=
  ⟨h, h.called, h.neutral, h.complaints⟩

/-- Hooks may be left with the same verdict, unless it is a panic that might have been a refusal. -/
theorem Deployment.Matches.leave {calm : Fin n → Bool} {start : List (Event n K V)}
    {first second : Deployment n S K V} (h : first.Matches (Calmed calm) start second) {map : Fin n}
    {hook : Hook K V} {verdict : Outcome Bool}
    (hquiet : Event.isOutcry calm (.answered map hook verdict) = false) :
    (first.leave map hook verdict).Matches (Calmed calm) start (second.leave map hook verdict) :=
  h.note fun _ _ halike => .same hquiet halike

/-! ## A pass with calm hooks -/

section Passes

open Operation

variable [DecidableEq K] {plan : Plan n S K V} {calm : Fin n → Bool}
  {consultation consultation' : Consultation n S K V} {start : List (Event n K V)}

/-- Calm hooks are told of an entry with the same result. -/
theorem pairs_notify
    (hscripts : PairsScripts (Deployment.Matches (Calmed calm) start) consultation consultation')
    (map : Fin n) (entry : Entry K V) :
    Pairs (Deployment.Matches (Calmed calm) start) Eq
      ((notify map entry).run (plan.respond consultation))
      ((notify map entry).run ((plan.calmed calm).respond consultation')) := by
  intro before before' hmatches
  simp only [notify, consult, Program.bind_eq, Program.act_bind, Program.done_bind,
    Program.run_act, Plan.respond]
  have hentered := hmatches.enter (Calmed.likeness calm) plan (calming calm) plan.enumeration map
    (.eviction entry.key entry.value)
  rcases consult_cases hscripts hentered with
    ⟨hfirst, hsecond, hleft⟩ | ⟨verdict, asked, asked', hleft, hfirst, hsecond⟩
  · rw [Plan.calmed, hfirst, hsecond]
    exact ⟨rfl, hleft⟩
  rw [Plan.calmed, hfirst, hsecond]
  cases verdict with
  | ok confirmed => exact ⟨rfl, hleft.leave rfl⟩
  | error panic =>
      cases hcalm : calm map with
      | true =>
          -- the panic and its record on one side, the refusal on the other
          simp only [Outcome.rescued, calming, hcalm, if_true]
          refine ⟨rfl, ?_⟩
          show Deployment.Matches _ _
            (asked.note [.answered map _ (.error panic), .logged map (.hookPanicked panic)])
            (asked'.note [.answered map _ (.ok false)])
          exact hleft.note fun _ _ halike => .refused hcalm halike
      | false =>
          simp only [Outcome.rescued, calming, hcalm, Bool.false_eq_true, if_false]
          have hquiet : Event.isOutcry calm (.answered map (.eviction entry.key entry.value)
            (.error panic)) = false := hcalm
          exact ⟨rfl, (hleft.leave hquiet).note_same (Calmed.likeness calm)
            (by simp [Event.IsAnswer])⟩

omit [DecidableEq K] in
/-- Calm screening hooks are no different. -/
theorem pairs_screening
    (hscripts : PairsScripts (Deployment.Matches (Calmed calm) start) consultation consultation')
    (map : Fin n) (entry : Entry K V) :
    Pairs (Deployment.Matches (Calmed calm) start) Eq
      (plan.consult consultation map (.screening entry))
      ((plan.calmed calm).consult consultation' map (.screening entry)) := by
  intro before before' hmatches
  have hentered := hmatches.enter (Calmed.likeness calm) plan (calming calm) plan.enumeration map
    (.screening entry)
  rcases consult_cases hscripts hentered with
    ⟨hfirst, hsecond, hleft⟩ | ⟨verdict, asked, asked', hleft, hfirst, hsecond⟩
  · exact ⟨hfirst.trans hsecond.symm, hleft⟩
  · -- only eviction hooks are calmed, so the verdict is the same
    rw [Plan.calmed, hfirst, hsecond]
    have hrescued : Outcome.rescued (calming calm map (.screening entry)) verdict = verdict :=
      Outcome.rescued_error verdict
    rw [hrescued]
    exact ⟨rfl, hleft.leave rfl⟩

/-- What a pass is composed of goes on alike whether hooks are calm or not. -/
theorem passes_calmed
    (hscripts : PairsScripts (Deployment.Matches (Calmed calm) start) consultation consultation') :
    ComposesPasses fun _ (operation : Operation n K V _) =>
      Pairs (Deployment.Matches (Calmed calm) start) Eq
        (operation.run (plan.respond consultation))
        (operation.run ((plan.calmed calm).respond consultation')) where
  done _ := pairs_done rfl
  step step _ heviction := by
    refine pairs_of_every (.act step .done) ⟨?_, fun _ => trivial⟩
    cases step with
    | act act => exact pairs_act (Calmed.likeness calm) plan _ (.inr rfl)
    | consult map hook =>
        -- an eviction hook is told by `notify` and not by a single step
        cases hook with
        | screening entry => exact pairs_screening hscripts map entry
        | eviction key value => exact absurd trivial heviction
  notify := pairs_notify hscripts
  bind := pairs_bind_same _
  guarded map _ := pairs_guarded (pairs_act (Calmed.likeness calm) plan _ (.inr rfl))
    (pairs_act (Calmed.likeness calm) plan _ (.inr rfl))

/-- Whatever is asked for goes on alike whether hooks are calm or not. -/
theorem pairing_calmed (plan : Plan n S K V) (calm : Fin n → Bool) (start : List (Event n K V)) :
    Pairing plan (calming calm) plan.enumeration (Deployment.Matches (Calmed calm) start) where
  memory h := h.memory
  resume map call outcome remember h :=
    h.resume (Calmed.likeness calm) map call outcome remember
  gather h := h.note_same (Calmed.likeness calm) (by simp [Event.IsAnswer])
  request depth hscripts map request := by
    refine (pairs_service (fun step hstep => ?_)
      (places_matches (Calmed.likeness calm) plan _ _ _ _)
      (passes_calmed hscripts).pass).serve (plan.settings map) map request
    cases step with
    | act act => exact pairs_act (Calmed.likeness calm) plan _ (.inr rfl)
    | consult map hook => exact hstep.elim

/-- A pass goes on alike if eviction hooks refuse where they would panic, whatever they do before
and after, and however deep their calls are nested. -/
theorem pass_calmed (plan : Plan n S K V) (calm : Fin n → Bool) (depth : Nat) (map : Fin n)
    (deployment : Deployment n S K V) :
    RunsAlike (DiffersInPanics calm) deployment (plan.run depth (pass map) deployment)
      ((plan.calmed calm).run depth (pass map) deployment) := by
  have hscripts := (pairing_calmed plan calm deployment.journal).scripts depth
  obtain ⟨hresult, hmatches⟩ :=
    (passes_calmed hscripts).pass map (.refl (Calmed.likeness calm) deployment)
  exact .of_matches hresult hmatches fun _ _ => Calmed.differsInPanics

/-- So do any calls that are made, among them those that come upon scheduled passes. -/
theorem serveCalls_calmed (plan : Plan n S K V) (calm : Fin n → Bool) (depth : Nat) (map : Fin n)
    (calls : List (Call n K V)) (deployment : Deployment n S K V) :
    RunsAlike (DiffersInPanics calm) deployment
      (plan.serveCalls (plan.consultation depth) map calls deployment)
      ((plan.calmed calm).serveCalls ((plan.calmed calm).consultation depth) map calls
        deployment) := by
  obtain ⟨hresult, hmatches⟩ := (pairing_calmed plan calm deployment.journal).calls depth map calls
    (.refl (Calmed.likeness calm) deployment)
  exact .of_matches hresult hmatches fun _ _ => Calmed.differsInPanics

end Passes

end ExpiringMap
