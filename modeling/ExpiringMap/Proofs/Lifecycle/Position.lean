import ExpiringMap.Proofs.Lifecycle.Sparing

/-!
# Where a lifecycle call is

A call of `start` or `stop` begins by moving its map out of the one phase that it needs, and its
last act on the phase sets it again.  Between the two it is at one of four positions, each of which
tells the phase and whether there is a job:

```text
claimed    starting   no job    a start is about to have its job scheduled, or to give up
kept       starting   a job     it has put its job in place
leaving    stopping   a job     a stop is about to take the job out
emptied    stopping   no job    it has taken the job out, cancels it and empties the store
```

What remains of the call is known at each of them (`Position.Ahead`), up to what spares the map.
-/

namespace ExpiringMap

variable {n : Nat} {S K V : Type}

/-! ## Positions -/

/-- Where a call is between its first act on the phase and its last. -/
inductive Position
  | claimed
  | kept
  | leaving
  | emptied
deriving DecidableEq

namespace Position

def call : Position → LifecycleCall
  | claimed | kept => .start
  | leaving | emptied => .stop

def phase : Position → Phase
  | claimed | kept => .starting
  | leaving | emptied => .stopping

def hasJob : Position → Bool
  | claimed | emptied => false
  | kept | leaving => true

end Position

namespace LifecycleCall

/-- The phase that a call needs. -/
def needs : LifecycleCall → Phase
  | start => .stopped
  | stop => .started

/-- Where a call is when it has found the map in that phase. -/
def entry : LifecycleCall → Position
  | start => .claimed
  | stop => .leaving

end LifecycleCall

namespace Operation

/-- The last act of a call, which sets the phase. -/
def ending (map : Fin n) (phase : Phase) (result : Except Error Unit) :
    Operation n K V (Except Error Unit) :=
  .act (.act (.map map (.setPhase phase))) fun _ => .done result

/-- The last acts of a start whose job has been scheduled. -/
def keeping (map : Fin n) (id : Nat) : Operation n K V (Except Error Unit) :=
  .act (.act (.map map (.keepJob id))) fun _ => ending map .started (.ok ())

end Operation

open Operation in
/-- Whether this is what may remain of a call at a position. -/
def Position.Ahead (map : Fin n) :
    Position → Operation n K V (Except Error Unit) → Prop
  | claimed, rest =>
      Through map (fun rest => (∃ error, rest = ending map .stopped (.error error)) ∨
        ∃ id, rest = keeping map id) rest
  | kept, rest => rest = ending map .started (.ok ())
  | leaving, rest =>
      ∃ next, rest = .act (.act (.map map .takeJob)) next ∧
        ∀ id, Through map (fun rest => rest = ending map .stopped (.ok ())) (next (some id))
  | emptied, rest => Through map (fun rest => rest = ending map .stopped (.ok ())) rest

namespace Operation

theorem start_ahead (map : Fin n) (interval : Duration) :
    ∃ next, start (K := K) (V := V) map interval =
        .act (.act (.map map (.shift .start .stopped .starting))) next ∧
      (∀ error, next (.error error) = .done (.error error)) ∧
        Position.claimed.Ahead map (next (.ok ())) := by
  refine ⟨_, rfl, fun error => rfl, ?_⟩
  refine .act trivial fun shut _ => ?_
  cases shut with
  | true => exact .there (.inl ⟨_, rfl⟩)
  | false =>
      refine .act trivial fun scheduled _ => ?_
      cases scheduled with
      | error error => exact .there (.inl ⟨error, rfl⟩)
      | ok accepted =>
          obtain ⟨id, _ | _⟩ := accepted
          · exact .there (.inr ⟨id, rfl⟩)
          · -- the job is run at once, in full, before it is kept
            show Through map _ ((runJob id).bind fun _ => keeping map id)
            exact .bind (spares_runJob map id) fun _ => .there (.inr ⟨id, rfl⟩)

theorem stop_ahead (map : Fin n) :
    ∃ next, stop (K := K) (V := V) map =
        .act (.act (.map map (.shift .stop .started .stopping))) next ∧
      (∀ error, next (.error error) = .done (.error error)) ∧
        Position.leaving.Ahead map (next (.ok ())) := by
  refine ⟨_, rfl, fun error => rfl, _, rfl, fun id => ?_⟩
  have hcancel := spares_cancel (K := K) (V := V) map (fun _ hne => spares_retire map hne) map id
  show Through map _ ((cancel retire map id).bind fun _ => _)
  exact .bind hcancel fun _ => .bind ((composes_spares map).empty map) fun _ => .there rfl

/-- A call begins with the act that moves the map out of the phase it needs, and if that fails, it
is over. -/
theorem operation_ahead (call : LifecycleCall) (map : Fin n) (interval : Duration) :
    ∃ next, call.operation (K := K) (V := V) map interval =
        .act (.act (.map map (.shift call call.needs call.entry.phase))) next ∧
      (∀ error, next (.error error) = .done (.error error)) ∧
      call.entry.Ahead map (next (.ok ())) := by
  cases call with
  | start => exact start_ahead map interval
  | stop => exact stop_ahead map

/-- What may come next of an operation that spares a map up to a certain point. -/
theorem Through.cases_act {α : Type} {map : Fin n} {point : Operation n K V α → Prop}
    {act : Act n K V} {next : act.Answer → Operation n K V α}
    (h : Through map point (.act (.act act) next)) :
    point (.act (.act act) next) ∨
      act.Spares map ∧ ∀ answer, act.AnswersHeld map answer → Through map point (next answer) := by
  cases h with
  | there hpoint => exact .inl hpoint
  | act hspares hnext => exact .inr ⟨hspares, hnext⟩

end Operation

/-- Something remains of a call at a position. -/
theorem Position.Ahead.ne_done {position : Position} {map : Fin n}
    {rest : Operation n K V (Except Error Unit)} (h : position.Ahead map rest)
    (result : Except Error Unit) : rest ≠ .done result := by
  rintro rfl
  cases position with
  | claimed =>
      cases h with
      | there hpoint => rcases hpoint with ⟨error, heq⟩ | ⟨id, heq⟩ <;> cases heq
  | kept => cases h
  | leaving =>
      obtain ⟨next, heq, -⟩ := h
      cases heq
  | emptied =>
      cases h with
      -- so has the rest of a stop that has taken the job
      | there heq => cases heq

/-- What may come next of a call at a position: the act, and how the call goes on after it. -/
inductive Position.Turn (map : Fin n) : Position → (act : Act n K V) →
    (act.Answer → Operation n K V (Except Error Unit)) → Prop
  | spares {position : Position} {act : Act n K V}
      {next : act.Answer → Operation n K V (Except Error Unit)} : act.Spares map →
      (∀ answer, act.AnswersHeld map answer → position.Ahead map (next answer)) →
      Turn map position act next
  | givesUp (error : Error) :
      Turn map claimed (.map map (.setPhase .stopped)) fun _ => .done (.error error)
  | keeps (id : Nat) :
      Turn map claimed (.map map (.keepJob id)) fun _ => Operation.ending map .started (.ok ())
  | starts : Turn map kept (.map map (.setPhase .started)) fun _ => .done (.ok ())
  | takes {next : Option Nat → Operation n K V (Except Error Unit)} :
      (∀ id, emptied.Ahead map (next (some id))) → Turn map leaving (.map map .takeJob) next
  | stops : Turn map emptied (.map map (.setPhase .stopped)) fun _ => .done (.ok ())

theorem Position.Ahead.turn {position : Position} {map : Fin n} {act : Act n K V}
    {next : act.Answer → Operation n K V (Except Error Unit)}
    (h : position.Ahead map (.act (.act act) next)) : position.Turn map act next := by
  cases position with
  | claimed =>
      -- either the start is at its decisive act, or it still spares the map
      rcases Operation.Through.cases_act h with (⟨error, heq⟩ | ⟨id, heq⟩) | ⟨hspares, hnext⟩
      · cases heq
        exact .givesUp error
      · cases heq
        exact .keeps id
      · exact .spares hspares hnext
  | kept =>
      cases h
      exact .starts
  | leaving =>
      obtain ⟨rest, heq, hrest⟩ := h
      cases heq
      exact .takes hrest
  | emptied =>
      rcases Operation.Through.cases_act h with heq | ⟨hspares, hnext⟩
      · cases heq
        exact .stops
      · exact .spares hspares hnext

/-- A hook that is consulted leaves the call where it was. -/
theorem Position.Ahead.of_consult {position : Position} {map other : Fin n} {hook : Hook K V}
    {next : Outcome Bool → Operation n K V (Except Error Unit)}
    (h : position.Ahead map (.act (.consult other hook) next)) (verdict : Outcome Bool) :
    position.Ahead map (next verdict) := by
  cases position with
  | claimed =>
      cases h with
      -- the decisive acts consult nobody
      | there hpoint => rcases hpoint with ⟨error, heq⟩ | ⟨id, heq⟩ <;> cases heq
      | consult hnext => exact hnext verdict
  | kept => cases h
  | leaving =>
      obtain ⟨rest, heq, -⟩ := h
      cases heq
  | emptied =>
      cases h with
      | there heq => cases heq
      | consult hnext => exact hnext verdict

end ExpiringMap
