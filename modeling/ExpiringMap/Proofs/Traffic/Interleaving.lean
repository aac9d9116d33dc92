import ExpiringMap.Proofs.Concurrent.Execution

/-!
# Interleavings

Any number of threads go about their errands at the same time: they ask a map for something, again
and again, or run jobs.  What a thread sets out to do next may depend on whatever has happened, and
others may come in between any two of its deeds; somebody else moves the clock.  The history of such
an interleaving tells when errands were set out on, what was done for them deed by deed, and what
they have come to.

Which deeds are kept waiting is left open.  What holds of all interleavings that keep nobody waiting
holds whatever lock the threads go by, for a lock only leaves some interleavings out.
-/

namespace ExpiringMap

variable {n : Nat} {S K V : Type}

/-- Something that a thread sets out to do. -/
inductive Errand (K V : Type)
  /-- Ask the map for something through a handle. -/
  | ask (request : MapRequest K V)
  | run (id : Nat)

/-- What is done for an errand at a map, the calls of hooks nested `depth` deep at most. -/
def Plan.errand (plan : Plan n S K V) (depth : Nat) (map : Fin n) :
    Errand K V → Routine n S K V
  | .ask request => plan.access depth map request
  | .run id => plan.jobRoutine depth id

/-- A deployment with its locks, and what each thread is about: its errand, if it has one, and what
remains to be done for that. -/
structure Traffic (n : Nat) (S K V : Type) where
  stage : Stage n S K V
  courses : ThreadId → Option (Errand K V × Routine n S K V) := fun _ => none

namespace Traffic

/-- The traffic before any thread has set out. -/
def initial (deployment : Deployment n S K V) : Traffic n S K V where
  stage := { deployment }

def setCourse (traffic : Traffic n S K V) (thread : ThreadId)
    (course : Option (Errand K V × Routine n S K V)) : Traffic n S K V :=
  { traffic with courses := Function.update traffic.courses thread course }

def withStage (traffic : Traffic n S K V) (stage : Stage n S K V) : Traffic n S K V :=
  { traffic with stage }

variable (traffic : Traffic n S K V) (thread other : ThreadId)
  (course : Option (Errand K V × Routine n S K V))

@[simp] theorem stage_initial (deployment : Deployment n S K V) :
    (initial deployment).stage.deployment = deployment := rfl

@[simp] theorem courses_initial (deployment : Deployment n S K V) :
    (initial deployment).courses thread = none := rfl

@[simp] theorem stage_setCourse : (traffic.setCourse thread course).stage = traffic.stage := rfl

@[simp] theorem stage_withStage (stage : Stage n S K V) :
    (traffic.withStage stage).stage = stage := rfl

@[simp] theorem courses_withStage (stage : Stage n S K V) :
    (traffic.withStage stage).courses = traffic.courses := rfl

theorem courses_setCourse :
    (traffic.setCourse thread course).courses other =
      if other = thread then course else traffic.courses other :=
  Function.update_apply ..

@[simp] theorem courses_setCourse_self :
    (traffic.setCourse thread course).courses thread = course := by
  simp [courses_setCourse]

theorem courses_setCourse_of_ne {thread other : ThreadId} (h : other ≠ thread) :
    (traffic.setCourse thread course).courses other = traffic.courses other := by
  simp [courses_setCourse, h]

end Traffic

/-- Something that happens in an interleaving. -/
inductive Happening (n : Nat) (S K V : Type)
  | setsOut (thread : ThreadId) (errand : Errand K V)
  | does (thread : ThreadId) (deed : Deed n S K V) (answer : deed.Answer)
  | returns (thread : ThreadId) (errand : Errand K V) (outcomes : List (Outcome (Answer V)))

/-! ## What a history tells -/

/-- The errands that have been set out on, each with its thread, the first one first. -/
def departures (history : List (Happening n S K V)) : List (ThreadId × Errand K V) :=
  history.filterMap fun
    | .setsOut thread errand => some (thread, errand)
    | _ => none

/-- The errands that have come to their end, each with its thread and with what it has come to, the
first one first. -/
def arrivals (history : List (Happening n S K V)) :
    List (ThreadId × Errand K V × List (Outcome (Answer V))) :=
  history.filterMap fun
    | .returns thread errand outcomes => some (thread, errand, outcomes)
    | _ => none

section

variable (earlier later : List (Happening n S K V))

@[simp] theorem departures_append :
    departures (earlier ++ later) = departures earlier ++ departures later :=
  List.filterMap_append

@[simp] theorem arrivals_append :
    arrivals (earlier ++ later) = arrivals earlier ++ arrivals later :=
  List.filterMap_append

end

@[simp] theorem departures_nil : departures ([] : List (Happening n S K V)) = [] := rfl

@[simp] theorem arrivals_nil : arrivals ([] : List (Happening n S K V)) = [] := rfl

@[simp] theorem departures_setsOut (thread : ThreadId) (errand : Errand K V) :
    departures [(.setsOut thread errand : Happening n S K V)] = [(thread, errand)] := rfl

@[simp] theorem departures_does (thread : ThreadId) (deed : Deed n S K V) (answer : deed.Answer) :
    departures [.does thread deed answer] = [] := rfl

@[simp] theorem departures_returns (thread : ThreadId) (errand : Errand K V)
    (outcomes : List (Outcome (Answer V))) :
    departures [(.returns thread errand outcomes : Happening n S K V)] = [] := rfl

@[simp] theorem arrivals_setsOut (thread : ThreadId) (errand : Errand K V) :
    arrivals [(.setsOut thread errand : Happening n S K V)] = [] := rfl

@[simp] theorem arrivals_does (thread : ThreadId) (deed : Deed n S K V) (answer : deed.Answer) :
    arrivals [.does thread deed answer] = [] := rfl

@[simp] theorem arrivals_returns (thread : ThreadId) (errand : Errand K V)
    (outcomes : List (Outcome (Answer V))) :
    arrivals [(.returns thread errand outcomes : Happening n S K V)] =
      [(thread, errand, outcomes)] := rfl

/-- What has happened at some moment is the last thing that has, or had happened before that. -/
theorem append_singleton_eq_append_cons {α : Type} {earlier before after : List α} {last middle : α}
    (h : earlier ++ [last] = before ++ middle :: after) :
    earlier = before ∧ last = middle ∧ after = [] ∨
      ∃ since, after = since ++ [last] ∧ earlier = before ++ middle :: since := by
  rcases List.eq_nil_or_concat after with rfl | ⟨since, final, rfl⟩
  · obtain ⟨rfl, heq⟩ := List.append_inj' h rfl
    exact .inl ⟨rfl, (List.cons.inj heq).1, rfl⟩
  · rw [List.concat_eq_append, ← List.cons_append, ← List.append_assoc] at h
    obtain ⟨rfl, heq⟩ := List.append_inj' h rfl
    obtain rfl := (List.cons.inj heq).1
    exact .inr ⟨since, List.concat_eq_append, rfl⟩

/-! ## Interleavings -/

section

variable [DecidableEq K]

/-- Which deeds a thread may do when it comes to them. -/
abbrev Admission (n : Nat) (S K V : Type) := Stage n S K V → ThreadId → Deed n S K V → Prop

/-- A single move in the traffic at a map, with what happens in it, if anything, given which deeds
are not kept waiting. -/
inductive Plan.Moves (plan : Plan n S K V) (depth : Nat) (map : Fin n)
    (admits : Admission n S K V) :
    Traffic n S K V → List (Happening n S K V) → Traffic n S K V → Prop
  | setsOut {traffic : Traffic n S K V} (thread : ThreadId) (errand : Errand K V) :
      traffic.courses thread = none →
      Moves plan depth map admits traffic [.setsOut thread errand]
        (traffic.setCourse thread (some (errand, plan.errand depth map errand)))
  | does {traffic : Traffic n S K V} {errand : Errand K V} {deed : Deed n S K V}
      {next : deed.Answer → Routine n S K V} (thread : ThreadId) :
      traffic.courses thread = some (errand, .step deed next) →
      admits traffic.stage thread deed →
      Moves plan depth map admits traffic
        [.does thread deed (traffic.stage.perform plan thread deed).1]
        ((traffic.withStage (traffic.stage.perform plan thread deed).2).setCourse thread
          (some (errand, next (traffic.stage.perform plan thread deed).1)))
  | returns {traffic : Traffic n S K V} {errand : Errand K V}
      {outcomes : List (Outcome (Answer V))} (thread : ThreadId) :
      traffic.courses thread = some (errand, .done outcomes) →
      Moves plan depth map admits traffic [.returns thread errand outcomes]
        (traffic.setCourse thread none)
  | clockMoves {traffic : Traffic n S K V} (act : ClockAct) :
      Moves plan depth map admits traffic []
        (traffic.withStage
          { traffic.stage with deployment := (traffic.stage.deployment.onClock act).2 })

/-- Any number of moves one after the other. -/
inductive Plan.Interleaves (plan : Plan n S K V) (depth : Nat) (map : Fin n)
    (admits : Admission n S K V) (first : Traffic n S K V) :
    List (Happening n S K V) → Traffic n S K V → Prop
  | start : Interleaves plan depth map admits first [] first
  | move {history happened : List (Happening n S K V)} {traffic last : Traffic n S K V} :
      Interleaves plan depth map admits first history traffic →
      plan.Moves depth map admits traffic happened last →
      Interleaves plan depth map admits first (history ++ happened) last

variable {plan : Plan n S K V} {depth : Nat} {map : Fin n} {admits : Admission n S K V}
  {first last : Traffic n S K V}

/-- What has happened up to some moment is an interleaving, and so is what has happened since. -/
theorem Plan.Interleaves.of_append {earlier later : List (Happening n S K V)}
    (h : plan.Interleaves depth map admits first (earlier ++ later) last) :
    ∃ between, plan.Interleaves depth map admits first earlier between ∧
      plan.Interleaves depth map admits between later last := by
  generalize hhistory : earlier ++ later = history at h
  induction h generalizing later with
  | start =>
      obtain ⟨rfl, rfl⟩ := List.append_eq_nil_iff.mp hhistory
      exact ⟨first, .start, .start⟩
  | @move history happened traffic last hbefore hmove ih =>
      have hone : happened.length ≤ 1 := by cases hmove <;> simp
      -- the last move has been made since, unless it is the last of the earlier ones
      rcases List.append_eq_append_iff.mp hhistory with ⟨rest, rfl, rfl⟩ | ⟨rest, rfl, rfl⟩
      · obtain ⟨between, hearlier, hlater⟩ := ih rfl
        exact ⟨between, hearlier, hlater.move hmove⟩
      · rcases rest with _ | ⟨happening, rest⟩
        · exact ⟨traffic, by simpa using hbefore, .move .start hmove⟩
        · simp only [List.cons_append, List.length_cons, List.length_append] at hone
          obtain rfl : later = [] := List.length_eq_zero_iff.mp (by omega)
          exact ⟨last, by simpa using hbefore.move hmove, .start⟩

end

/-! ## Taking turns -/

/-- Whose turn it is, and to what. -/
inductive Cue (K V : Type)
  | setsOut (thread : ThreadId) (errand : Errand K V)
  /-- The thread does its next deed, or is back from its errand. -/
  | goesOn (thread : ThreadId)
  | clockMoves (act : ClockAct)

namespace Plan

variable [DecidableEq K] (plan : Plan n S K V) (depth : Nat) (map : Fin n)
  (admits : Admission n S K V)
  [∀ stage thread deed, Decidable (admits stage thread deed)]

/-- What a turn comes to.  A thread that is about an errand does not set out on another one, and one
that is kept waiting does not go on. -/
def turn (traffic : Traffic n S K V) : Cue K V → List (Happening n S K V) × Traffic n S K V
  | .setsOut thread errand =>
      match traffic.courses thread with
      | some _ => ([], traffic)
      | none =>
          ([.setsOut thread errand],
            traffic.setCourse thread (some (errand, plan.errand depth map errand)))
  | .goesOn thread =>
      match traffic.courses thread with
      | some (errand, .done outcomes) =>
          ([.returns thread errand outcomes], traffic.setCourse thread none)
      | some (errand, .step deed next) =>
          if admits traffic.stage thread deed then
            let (answer, stage) := traffic.stage.perform plan thread deed
            ([.does thread deed answer],
              (traffic.withStage stage).setCourse thread (some (errand, next answer)))
          else ([], traffic)
      | some (_, .divide ..) | none => ([], traffic)
  | .clockMoves act =>
      ([], traffic.withStage
        { traffic.stage with deployment := (traffic.stage.deployment.onClock act).2 })

/-- The history of some turns, and the traffic after them. -/
def takeTurns (traffic : Traffic n S K V) (turns : List (Cue K V)) :
    List (Happening n S K V) × Traffic n S K V :=
  turns.foldl
    (fun (history, traffic) turn =>
      let (happened, traffic) := plan.turn depth map admits traffic turn
      (history ++ happened, traffic))
    ([], traffic)

variable {plan depth map admits}

theorem Interleaves.turn {first traffic : Traffic n S K V} {history : List (Happening n S K V)}
    (h : plan.Interleaves depth map admits first history traffic) (turn : Cue K V) :
    plan.Interleaves depth map admits first
      (history ++ (plan.turn depth map admits traffic turn).1)
      (plan.turn depth map admits traffic turn).2 := by
  have hstill : plan.Interleaves depth map admits first (history ++ []) traffic := by
    rwa [List.append_nil]
  cases turn with
  | setsOut thread errand =>
      unfold Plan.turn
      dsimp only
      split
      · -- the thread is under way already, so the turn is lost
        exact hstill
      · next hcourse => exact h.move (.setsOut thread errand hcourse)
  | goesOn thread =>
      unfold Plan.turn
      dsimp only
      split
      · next hcourse => exact h.move (.returns thread hcourse)
      · -- the next deed is done if it is admitted, and else the turn is lost
        next hcourse =>
        split
        · next hadmits => exact h.move (.does thread hcourse hadmits)
        · exact hstill
      · exact hstill
      · exact hstill
  | clockMoves act =>
      exact h.move (.clockMoves act)

variable (plan depth map admits)

/-- Whatever turns are taken, it is an interleaving. -/
theorem interleaves_takeTurns (traffic : Traffic n S K V) (turns : List (Cue K V)) :
    plan.Interleaves depth map admits traffic
      (plan.takeTurns depth map admits traffic turns).1
      (plan.takeTurns depth map admits traffic turns).2 := by
  let reaches (reached : List (Happening n S K V) × Traffic n S K V) : Prop :=
    plan.Interleaves depth map admits traffic reached.1 reached.2
  exact List.foldlRecOn (motive := reaches) turns _ .start fun _ h turn _ => h.turn turn

end Plan

end ExpiringMap
