import ExpiringMap.Proofs.Concurrent.Serial
import ExpiringMap.Proofs.Pass.Notification

/-!
# The order of an execution

Under an exclusive lock clients get the same answers, hooks are called with the same and in the
same order, and the same is left in the stores, as if requests were served one after the other in
the order in which clients entered the free lock (`execution_serializable`).  So numbers go up
with the entries as they reach the store, and of entries with equal deadlines the eviction hook is
told in that order.
-/

namespace ExpiringMap

open Operation

variable {n : Nat} {S K V : Type}

/-! ## What the clock has no part in -/

theorem placings_apartFromClock (map : Fin n) (events : List (Event n K V)) :
    placings map (Event.apartFromClock events) = placings map events := by
  unfold placings Event.apartFromClock
  rw [List.filterMap_filter]
  congr 1
  funext event
  cases event <;> rfl

theorem Deployment.Alike.placings_eq {first second : Deployment n S K V}
    (h : first.Alike second) (map : Fin n) :
    placings map first.journal = placings map second.journal := by
  rw [← placings_apartFromClock, h.journal, placings_apartFromClock]

variable [DecidableEq K] {plan : Plan n S K V} {depth : Nat} {map : Fin n}
  {start last : Deployment n S K V}

omit [DecidableEq K] in
theorem Deployment.proceeds_foreseeing (deployment : Deployment n S K V) (shown : List Instant) :
    deployment.Proceeds (deployment.foreseeing shown) :=
  proceeds_of_addsNothing (List.nil_append _).symm (fun _ _ hevent => absurd hevent (by simp))
    fun _ => .refl _

theorem Plan.Serves.proceeds {services : List (Service K V)}
    (h : plan.Serves depth map start services last) : start.Proceeds last := by
  have hlasting := lasting_proceeds plan
  have hconsult := hlasting.keeps_consult depth
  induction h with
  | start => exact .refl start
  | @serve deployment last _ _ thread request shown _ hrun _ ih =>
      have hserved := ((composes_proceeds hconsult).serveMap places_proceeds (plan.settings map)
        map request (deployment.foreseeing shown)).1
      change Deployment.Proceeds _ (plan.run depth _ _).2 at hserved
      rw [hrun] at hserved
      exact ih.trans ((deployment.proceeds_foreseeing shown).trans hserved)

theorem Plan.Serves.of_append {earlier later : List (Service K V)}
    (h : plan.Serves depth map start (earlier ++ later) last) :
    ∃ before, plan.Serves depth map start earlier before := by
  generalize hservices : earlier ++ later = services at h
  induction h generalizing later with
  | start =>
      obtain ⟨rfl, -⟩ := List.append_eq_nil_iff.mp hservices
      exact ⟨start, .start start⟩
  | @serve _ last _ _ thread request shown hserves hrun hforeseen ih =>
      -- the last service is among the later ones, if there are any
      rcases later.eq_nil_or_concat with rfl | ⟨others, service, rfl⟩
      · rw [List.append_nil] at hservices
        exact ⟨last, hservices ▸ hserves.serve thread request shown hrun hforeseen⟩
      · rw [List.concat_eq_append, ← List.append_assoc] at hservices
        exact ih (List.append_inj_left' hservices rfl)

/-! ## Executions in order -/

/-- Whether the history of an execution and what it has left come of serving requests one after the
other, given the requests that clients made and what these have come to. -/
structure Serializes (plan : Plan n S K V) (depth : Nat) (map : Fin n)
    (start : Deployment n S K V) (requests : ThreadId → List (MapRequest K V))
    (history : List (Doing n S K V)) (last : Deployment n S K V)
    (outcomes : ThreadId → List (Outcome (Answer V))) (services : List (Service K V))
    (serial : Deployment n S K V) : Prop where
  serves : plan.Serves depth map start services serial
  /-- Requests are served in the order in which clients entered the free lock. -/
  order : services.map Service.thread = acquisitions map history
  requests : ∀ thread, (Service.of thread services).map Service.request = requests thread
  outcomes : ∀ thread, (Service.of thread services).map Service.outcome = outcomes thread
  /-- Every client is shown the readings of the clock that it was shown. -/
  showings : ∀ thread,
    (Service.of thread services).flatMap Service.shown = shownTo thread history
  /-- The same is left in the stores, and the same hooks have been called in the same order. -/
  alike : serial.Alike last
  /-- Numbers go up with the entries as they reach the store. -/
  ascending : (placings map last.journal).Pairwise fun later earlier => earlier.seq < later.seq
  /-- Entries with equal deadlines are notified in the order in which they reached the store. -/
  ties : ∀ earlier later thread shown outcome,
    services = earlier ++ ⟨thread, .purge, shown, outcome⟩ :: later →
      ∃ before, plan.Serves depth map start earlier before ∧
        NotifiesAsPlaced map before.journal
          ((pass map).trace (plan.respond (plan.consultation depth)) (before.foreseeing shown))

variable {requests : ThreadId → List (MapRequest K V)} {history : List (Doing n S K V)}
  {services : List (Service K V)} {serial : Deployment n S K V}

theorem Serialized.quiet {scene : Scene n S K V}
    (h : Serialized plan depth map requests history scene start)
    {outcomes : ThreadId → List (Outcome (Answer V))}
    (hended : ∀ thread, (scene.clients thread).HasEnded (outcomes thread)) :
    ∃ services serial, plan.Serves depth map start services serial ∧
      Quiet plan depth map requests history scene services serial := by
  obtain ⟨services, serial, hserves, hquiet | ⟨owner, again, shown, request, hbusy⟩⟩ := h
  · exact ⟨services, serial, hserves, hquiet⟩
  · obtain ⟨served, hdone, -⟩ := hended owner
    have hinside := hbusy.works.inside
    rw [hdone] at hinside
    exact nomatch hinside

/-- A client that has come to its end has been served. -/
theorem Client.Idle.of_hasEnded {client : Client n S K V} {requests : List (MapRequest K V)}
    {served : List (Service K V)} {outcomes : List (Outcome (Answer V))}
    (h : client.Idle plan depth map requests served)
    (hfirst : plan.LocksFirst depth map requests) (hended : client.HasEnded outcomes) :
    served.map Service.request = requests ∧ served.map Service.outcome = outcomes := by
  obtain ⟨results, hdone, hwaiting, rfl⟩ := hended
  cases h with
  | rests others hcurrent houtcomes hrequests =>
      obtain rfl := Routine.done.inj (hdone.symm.trans hcurrent)
      rw [hwaiting, List.append_nil] at hrequests
      exact ⟨hrequests, houtcomes.symm⟩
  | comes request haccess _ hrequests =>
      obtain ⟨next, heq, -⟩ := hfirst request (by simp [← hrequests])
      rw [hdone, heq] at haccess
      exact nomatch haccess

/-- Under an exclusive lock an execution in which every client has come to its end is as good as
one in which the requests are served one after the other, in the order in which clients entered
the free lock. -/
theorem execution_serializable
    (hexcludes : (plan.settings map).locking.excludes = true) (hreachable : plan.Reachable start)
    (hguarded : ∀ thread, ∀ request ∈ requests thread, request.IsGuarded)
    {last : Scene n S K V}
    (hexecution : plan.Execution depth map (Scene.initial start requests) history last)
    {outcomes : ThreadId → List (Outcome (Answer V))}
    (hended : ∀ thread, (last.clients thread).HasEnded (outcomes thread)) :
    ∃ services serial, Serializes plan depth map start requests history last.stage.deployment
      outcomes services serial := by
  have hfirst : ∀ thread, plan.LocksFirst depth map (requests thread) :=
    fun thread request hrequest => access_eq plan map depth (hguarded thread request hrequest)
  obtain ⟨services, serial, hserves, hquiet⟩ :=
    (serialized_of_execution hfirst hexcludes hexecution).quiet hended
  have hnumbered := hreachable.numbered
  have hended' := fun thread => (hquiet.idle thread).of_hasEnded (hfirst thread) (hended thread)
  refine ⟨services, serial, hserves, hquiet.order, fun thread => (hended' thread).1,
    fun thread => (hended' thread).2, hquiet.showings, hquiet.alike, ?_, ?_⟩
  · -- what the clients have placed is what serving one after the other has placed
    rw [← hquiet.alike.placings_eq map]
    exact (hserves.proceeds.numbered hnumbered map).descending
  · rintro earlier later thread shown outcome rfl
    obtain ⟨before, hbefore⟩ := hserves.of_append
    have hforeseeing := hbefore.proceeds.trans (before.proceeds_foreseeing shown)
    have hpass := pass_notifies_as_placed plan (hforeseeing.numbered hnumbered)
      (plan.consultation depth) map
    exact ⟨before, hbefore, hpass⟩

/-- A client that purges a map, and one that puts an entry meanwhile. -/
def purgeAndPut : ThreadId → List (MapRequest Nat Nat)
  | 0 => [.purge]
  | 1 => [.put 7 71 .zero]
  | _ => []

/-- The two clients take turns, and the clock is moved in between. -/
def inTurns : List Mover :=
  (List.replicate 16 [.client 1, .client 0, .client 0, .clock (.advance 1)]).flatten

set_option maxRecDepth 2000 in
/-- The client that puts an entry comes to the lock while the other one is inside, and finds what
the eviction hook has put again. -/
theorem execution_serializable_renewing :
    let executed := renewing.follow 1 0 (.initial overdue purgeAndPut) inTurns
    ∃ services serial, Serializes renewing 1 0 overdue purgeAndPut executed.1
      executed.2.stage.deployment
      (fun
        | 0 => [.ok .done]
        | 1 => [.ok (.value (some 70))]
        | _ => []) services serial := by
  have hguarded : ∀ thread, ∀ request ∈ purgeAndPut thread, request.IsGuarded := by
    rintro (_ | _ | thread) request hrequest
    · rw [List.mem_singleton.mp hrequest]
      trivial
    · rw [List.mem_singleton.mp hrequest]
      trivial
    · exact absurd hrequest List.not_mem_nil
  have hexecution := renewing.execution_follow 1 0 (.initial overdue purgeAndPut) inTurns
  refine execution_serializable rfl reachable_overdue hguarded hexecution ?_
  rintro (_ | _ | thread)
  · exact ⟨_, rfl, rfl, rfl⟩
  · exact ⟨_, rfl, rfl, rfl⟩
  · exact ⟨_, rfl, rfl, rfl⟩

end ExpiringMap
