import ExpiringMap.Proofs.Lifecycle.Order

/-!
# One lifecycle call at a time

A call of `start` or `stop` sets the phase of its map and the place of its job without looking at
them.  That this is safe is due to its first act, which moves the map out of the one phase that the
call needs: from then on until the call sets the phase again, everybody else finds the map in a
phase that is of no use to them.  Main statement: `lifecycle_calls_exclude`.
-/

namespace ExpiringMap

variable {n : Nat} {S K V : Type}

namespace Contention

variable {map : Fin n} {scene : Contention n S K V} {number : Nat}

/-! ## What holds of every contention -/

/-- What holds at any moment of a contention. -/
structure Excludes (map : Fin n) (scene : Contention n S K V) : Prop where
  /-- While the map is starting or stopping, exactly one call is between its first act on the phase
  and its last. -/
  occupied : (scene.deployment.state map).phase = .starting ∨
    (scene.deployment.state map).phase = .stopping → ∃! number, scene.Between map number
  /-- While it is not, no call is. -/
  free : ¬ ((scene.deployment.state map).phase = .starting ∨
    (scene.deployment.state map).phase = .stopping) → ∀ number, ¬ scene.Between map number
  /-- A call that sets the phase overwrites what its own first act on the phase has written. -/
  own : ∀ number phase, scene.next? number = some (.map map (.setPhase phase)) →
    ∃ claim call source, scene.lastWrite? map = some claim ∧ claim.number = number ∧
      claim.claims map = true ∧
      claim.act = .map map (.shift call source (scene.deployment.state map).phase)
  /-- A call that puts its job in place finds no job there. -/
  keeps : ∀ number id, scene.next? number = some (.map map (.keepJob id)) →
    (scene.deployment.state map).job = none
  /-- A call that takes the job out finds one. -/
  takes : ∀ number, scene.next? number = some (.map map .takeJob) →
    (scene.deployment.state map).job ≠ none
  /-- Two calls are never at the job at the same time. -/
  alone : ∀ first second, scene.AtJob map first → scene.AtJob map second → first = second
  /-- Starts and stops succeed by turns. -/
  alternate : scene.successes.IsChain (· ≠ ·)
  /-- The first call to succeed is a start. -/
  first : ∀ call ∈ scene.successes.head?, call = .start

namespace Orderly

variable {occupant : Option (Nat × Position)} (h : Orderly map scene occupant)

include h

/-- A call of which something can be said that is true of no call outside is the one in between. -/
theorem exists_position (hknown : scene.attempts number ≠ none)
    (hnot : ∀ attempt, scene.attempts number = some attempt →
      ¬ Outside map scene.history number attempt) :
    ∃ position, occupant = some (number, position) := by
  by_contra hnone
  obtain ⟨attempt, hattempt⟩ := Option.ne_none_iff_exists'.mp hknown
  refine hnot attempt hattempt (h.outside number attempt hattempt fun position heq => ?_)
  exact hnone ⟨position, heq⟩

theorem position_of_between (hbetween : scene.Between map number) :
    ∃ position, occupant = some (number, position) := by
  refine h.exists_position (fun hnone => ?_) fun _ _ hout => hout.not_between hbetween
  obtain ⟨⟨done, hdone, hnumber, -⟩, -⟩ := hbetween
  exact h.unknown number hnone done hdone hnumber

theorem position_of_atJob (hatJob : scene.AtJob map number) :
    ∃ position, occupant = some (number, position) := by
  refine h.exists_position (fun hnone => ?_) fun _ hattempt hout => hout.not_atJob hattempt hatJob
  have hnext : scene.next? number = none := by rw [next?, hnone]; rfl
  rcases hatJob with ⟨id, hkeep⟩ | htake | ⟨⟨done, hdone, hnumber, -⟩, -⟩
  · exact absurd (hnext.symm.trans hkeep) (by simp)
  · exact absurd (hnext.symm.trans htake) (by simp)
  · exact h.unknown number hnone done hdone hnumber

/-- The last act on the phase is before the call that is in between, and before no other. -/
theorem position_of_sets {phase : Phase}
    (hsets : scene.next? number = some (.map map (.setPhase phase))) :
    ∃ position, occupant = some (number, position) := by
  refine h.exists_position (fun hnone => ?_) fun attempt hattempt hout => ?_
  · simp [next?, hnone] at hsets
  · rw [next?, hattempt] at hsets
    exact absurd (hout.next?_eq hsets) (by simp)

/-- What is known of the call in between if its next act is not one that spares the map. -/
theorem turn_of_next? {act : Act n K V} {position : Position}
    (hoccupant : occupant = some (number, position)) (hnext : scene.next? number = some act) :
    ∃ next, position.Turn map act next := by
  obtain ⟨rest, hrest, hahead⟩ := (h.inside number position hoccupant).attempt
  rw [next?, hrest] at hnext
  obtain _ | ⟨act | ⟨other, hook⟩, next⟩ := rest
  · simp [Attempt.next?] at hnext
  · obtain rfl := Option.some.inj hnext
    exact ⟨next, hahead.turn⟩
  · simp [Attempt.next?] at hnext

theorem excludes : Excludes map scene where
  occupied hphase := by
    cases occupant with
    -- nobody has a position, but then the phase would be a stable one
    | none => rcases (h.idle rfl).phase with heq | heq <;> simp [heq] at hphase
    | some pair =>
        -- whoever has the position is between the two, and nobody else can be
        refine ⟨pair.1, (h.inside pair.1 pair.2 rfl).between, fun number hbetween => ?_⟩
        obtain ⟨position, heq⟩ := h.position_of_between hbetween
        exact (congrArg Prod.fst (Option.some.inj heq)).symm
  free hphase number hbetween := by
    obtain ⟨position, hoccupant⟩ := h.position_of_between hbetween
    have hposition := (h.inside number position hoccupant).phase
    cases position <;> simp [hposition, Position.phase] at hphase
  own number phase hsets := by
    obtain ⟨position, hoccupant⟩ := h.position_of_sets hsets
    have hinside := h.inside number position hoccupant
    obtain ⟨claim, hwrite, hnumber, hclaims, hact⟩ := hinside.claim
    exact ⟨claim, _, _, hwrite, hnumber, hclaims, hinside.phase ▸ hact⟩
  keeps number id hkeep := by
    obtain ⟨position, hoccupant⟩ := h.position_of_atJob (.inl ⟨id, hkeep⟩)
    obtain ⟨next, hturn⟩ := h.turn_of_next? hoccupant hkeep
    have hjob := (h.inside number position hoccupant).job
    cases hturn with
    | spares hspares => exact (hspares rfl).elim
    | keeps => exact Option.isSome_eq_false_iff.mp hjob |> Option.isNone_iff_eq_none.mp
  takes number htake := by
    obtain ⟨position, hoccupant⟩ := h.position_of_atJob (.inr (.inl htake))
    obtain ⟨next, hturn⟩ := h.turn_of_next? hoccupant htake
    have hjob := (h.inside number position hoccupant).job
    cases hturn with
    | spares hspares => exact (hspares rfl).elim
    | takes => exact Option.isSome_iff_ne_none.mp hjob
  alone first second hfirst hsecond := by
    -- both are at the position, and there is only one
    obtain ⟨position, heq⟩ := h.position_of_atJob hfirst
    obtain ⟨there, heq'⟩ := h.position_of_atJob hsecond
    exact congrArg Prod.fst (Option.some.inj (heq.symm.trans heq'))
  alternate := h.alternate
  first := h.first

end Orderly

variable [DecidableEq K] {plan : Plan n S K V}

theorem Reachable.orderly (h : Reachable plan map scene) :
    ∃ occupant, Orderly map scene occupant := by
  induction h with
  | fresh drive clockRuns memory => exact ⟨none, orderly_fresh map drive clockRuns memory⟩
  | move _ hmove ih =>
      obtain ⟨occupant, horderly⟩ := ih
      exact horderly.move hmove

/-- However many calls of `start` and `stop` contend for a map and however their acts come between
one another, each of them has the phase and the job of the map to itself from its first act on the
phase to its last, and starts and stops succeed by turns. -/
theorem lifecycle_calls_exclude (h : Reachable plan map scene) : Excludes map scene := by
  obtain ⟨occupant, horderly⟩ := h.orderly
  exact horderly.excludes

/-- A call that starts a map while another one is about to stop it. -/
theorem lifecycle_calls_exclude_contested :
    ∃ scene : Contention 1 Unit Nat Nat, Reachable renewing 0 scene ∧ scene.Between 0 0 ∧
      scene.next? 1 = some (.map 0 (.shift .stop .started .stopping)) ∧ Excludes 0 scene := by
  have hfresh : Reachable renewing 0 _ := .fresh (.byHand false false) false ()
  have hstart := hfresh.move (.begins 0 .start .second rfl)
  have hstop := hstart.move (.begins 1 .stop .second rfl)
  have hclaim := hstop.move (.performs 0 rfl)
  refine ⟨_, hclaim, ⟨⟨_, List.mem_cons_self .., rfl, rfl⟩, fun done hdone _ => ?_⟩, rfl,
    lifecycle_calls_exclude hclaim⟩
  rw [List.mem_singleton.mp hdone]
  rfl

end Contention

end ExpiringMap
