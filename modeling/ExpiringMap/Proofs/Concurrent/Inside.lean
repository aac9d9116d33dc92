import ExpiringMap.Proofs.Concurrent.Execution
import ExpiringMap.Proofs.Operation.Composition

/-!
# Routines that keep the lock

What a client does for a guarded request begins with taking the lock of the map, and from then on
the client holds the lock until its very last deed (`access_eq`).  It may take the lock again in
between, for the calls of hooks, and gives it back as often.
-/

namespace ExpiringMap

variable {n : Nat} {S K V α β : Type}

/-- What comes next after the first of two operations is the second one. -/
theorem Operation.unfold_bind
    (scripts : Fin n → Script n S K V → Passage n S K V (Outcome Bool))
    (operation : Operation n K V α) (then_ : α → Operation n K V β)
    (next : β → Routine n S K V) :
    Operation.unfold scripts (operation.bind then_) next =
      Operation.unfold scripts operation fun result =>
        Operation.unfold scripts (then_ result) next := by
  induction operation with
  | done result => rfl
  | act step rest ih =>
      cases step with
      | act act => simp only [Program.act_bind, unfold, ih]
      | consult map hook => simp only [Program.act_bind, unfold, ih]

variable [DecidableEq K]

/-- Whether a routine that holds the lock of a map so many times gives it back as often, and has
come to its end when it has.  This says nothing of a routine once it has divided, for it goes on
when its branches have come to their end. -/
inductive Plan.Inside (plan : Plan n S K V) (map : Fin n) : Nat → Routine n S K V → Prop
  | done (outcomes : List (Outcome (Answer V))) : Inside plan map 0 (.done outcomes)
  | locks {guards : Nat} {next : Unit → Routine n S K V} :
      Inside plan map (guards + 2) (next ()) →
      Inside plan map (guards + 1) (.step (.act (.map map .lock)) next)
  | unlocks {guards : Nat} {next : Unit → Routine n S K V} :
      Inside plan map guards (next ()) →
      Inside plan map (guards + 1) (.step (.act (.map map .unlock)) next)
  | does {guards : Nat} {deed : Deed n S K V} {next : deed.Answer → Routine n S K V} :
      deed ≠ .act (.map map .lock) → deed ≠ .act (.map map .unlock) →
      (∀ deployment, Inside plan map (guards + 1) (next (plan.perform deed deployment).1)) →
      Inside plan map (guards + 1) (.step deed next)
  | divides {guards : Nat} (branches : List (Routine n S K V))
      (next : List (List (Outcome (Answer V))) → Routine n S K V) :
      Inside plan map (guards + 1) (.divide branches next)

/-- Whether a routine that holds the lock of a map still holds it, as often as before, when it has
come through a passage. -/
def Plan.StaysInside (plan : Plan n S K V) (map : Fin n) (passage : Passage n S K V α) : Prop :=
  ∀ guards next, (∀ result, plan.Inside map (guards + 1) (next result)) →
    plan.Inside map (guards + 1) (passage next)

section Passages

variable {plan : Plan n S K V} {map : Fin n}
  {scripts : Fin n → Script n S K V → Passage n S K V (Outcome Bool)}

theorem staysInside_hook
    (hscripts : ∀ other script, plan.StaysInside map (scripts other script))
    (other : Fin n) (hook : Hook K V) : plan.StaysInside map (hook.unfold scripts other) := by
  intro guards next hnext
  refine .does (by simp) (by simp) fun deployment => ?_
  rcases (plan.perform (.enter other hook) deployment).1 with _ | script
  · exact hnext _
  · refine hscripts other script guards _ fun verdict => ?_
    exact .does (by simp) (by simp) fun _ => hnext verdict

omit [DecidableEq K] in
/-- What is done under a lock begins with taking it and ends with giving it back. -/
theorem unfold_guarded (other : Fin n) (body : Operation n K V α) (next : α → Routine n S K V) :
    Operation.unfold scripts (Operation.guarded other body) next =
      .step (.act (.map other .lock)) fun _ =>
        Operation.unfold scripts body fun result =>
          .step (.act (.map other .unlock)) fun _ => next result := by
  change Operation.unfold scripts (.act _ fun _ => Program.bind body _) next = _
  simp only [Operation.unfold, Operation.unfold_bind]
  rfl

theorem staysInside_act {act : Act n K V} (hlock : act ≠ .map map .lock)
    (hunlock : act ≠ .map map .unlock) :
    plan.StaysInside map (Operation.unfold scripts (.act (.act act) .done)) := by
  intro guards next hnext
  refine .does ?_ ?_ fun deployment => hnext _
  · exact fun heq => hlock (Deed.act.inj heq)
  · exact fun heq => hunlock (Deed.act.inj heq)

/-- Whatever an operation does, it leaves the lock as it found it. -/
theorem composes_staysInside
    (hscripts : ∀ other script, plan.StaysInside map (scripts other script)) :
    Operation.Composes fun _ operation =>
      plan.StaysInside map (Operation.unfold scripts operation) where
  done result := fun guards next hnext => hnext result
  step step hplain := by
    cases step with
    | act act =>
        refine staysInside_act ?_ ?_ <;> rintro rfl
        · exact hplain
        · exact hplain
    | consult other hook => exact staysInside_hook hscripts other hook
  bind hfirst hrest := by
    intro guards next hnext
    rw [Operation.unfold_bind]
    exact hfirst guards _ fun result => hrest result guards next hnext
  guarded other body hbody := by
    intro guards next hnext
    rw [unfold_guarded]
    by_cases heq : other = map
    · -- the lock is held once more while the body lasts
      subst heq
      exact .locks (hbody (guards + 1) _ fun result => .unlocks (hnext result))
    · refine .does (by simp [heq]) (by simp) fun _ => hbody guards _ fun result => ?_
      exact .does (by simp) (by simp [heq]) fun _ => hnext result

/-- An entry is placed under a new number and with a new reading of the clock. -/
theorem staysInside_placing (hcomposes : Operation.Composes fun _ operation =>
      plan.StaysInside map (Operation.unfold scripts operation))
    (other : Fin n) {place : Nat → Instant → Operation n K V α}
    (hplace : ∀ seq now, plan.StaysInside map (Operation.unfold scripts (place seq now))) :
    plan.StaysInside map (Operation.unfold scripts do
      let seq ← Operation.reserve other
      let now ← Operation.now
      place seq now) :=
  hcomposes.bind (hcomposes.onMap other .reserve trivial) fun seq =>
    hcomposes.bind (hcomposes.onClock .read) fun now => hplace seq now

theorem places_staysInside (hcomposes : Operation.Composes fun _ operation =>
      plan.StaysInside map (Operation.unfold scripts operation)) :
    Operation.Composes.Places fun _ operation =>
      plan.StaysInside map (Operation.unfold scripts operation) where
  put other _ _ _ := hcomposes.guarded other <|
    staysInside_placing hcomposes other fun _ _ => staysInside_act (by simp) (by simp)
  putIfAbsent other _ _ _ := hcomposes.guarded other <|
    staysInside_placing hcomposes other fun _ _ => staysInside_act (by simp) (by simp)

end Passages

section Access

variable {plan : Plan n S K V} {map : Fin n}

/-- Scripts leave the lock as they find it, however deep their calls are nested. -/
theorem staysInside_scripts (plan : Plan n S K V) (map : Fin n) (depth : Nat) (other : Fin n)
    (script : Script n S K V) : plan.StaysInside map (plan.scripts depth other script) := by
  induction depth generalizing other script with
  | zero => exact fun guards next hnext => hnext _
  | succ depth ih =>
      have hcomposes := composes_staysInside ih
      intro guards next hnext
      unfold Plan.scripts
      induction script with
      | answer verdict => exact hnext verdict
      | call made remember rest ihscript =>
          cases made with
          | ask path request =>
              have hserve := hcomposes.serve (places_staysInside hcomposes)
                (plan.settings (path.last other)) (path.last other) request
              refine hserve guards _ fun outcome => ?_
              exact .does (by simp) (by simp) fun deployment => ihscript _ _
          | together path groups => exact .divides _ _

/-- What a client does for a request is guarded if what the map does is. -/
theorem access_of_guarded {depth : Nat} {request : MapRequest K V} {body : Operation n K V β}
    (finish : β → Outcome (Answer V))
    (heq : Operation.serveMap (plan.settings map) map request =
      (Operation.guarded map body).bind fun result => .done (finish result))
    (hbody : plan.StaysInside map (Operation.unfold (plan.scripts depth) body)) :
    ∃ next : Unit → Routine n S K V,
      plan.access depth map request = .step (.act (.map map .lock)) next ∧
        plan.Inside map 1 (next ()) := by
  rw [Plan.access, heq, Operation.unfold_bind, unfold_guarded]
  exact ⟨_, rfl, hbody 0 _ fun result => .unlocks (.done _)⟩

/-- What a client does for a guarded request begins with taking the lock, and from then on it
holds the lock until it has come to its end. -/
theorem access_eq (plan : Plan n S K V) (map : Fin n) (depth : Nat) {request : MapRequest K V}
    (hrequest : request.IsGuarded) :
    ∃ next : Unit → Routine n S K V,
      plan.access depth map request = .step (.act (.map map .lock)) next ∧
        plan.Inside map 1 (next ()) := by
  have hcomposes := composes_staysInside (staysInside_scripts plan map depth)
  have hread := hcomposes.onClock .read
  cases request with
  | get key =>
      refine access_of_guarded (fun value => .ok (.value value)) rfl ?_
      exact hcomposes.bind hread fun now => hcomposes.onMap map (.read key now) trivial
  | put key value timeout =>
      refine access_of_guarded (fun value => .ok (.value value)) rfl ?_
      exact staysInside_placing hcomposes map fun _ _ => staysInside_act (by simp) (by simp)
  | putIfAbsent key value timeout =>
      refine access_of_guarded (fun value => .ok (.value value)) rfl ?_
      exact staysInside_placing hcomposes map fun _ _ => staysInside_act (by simp) (by simp)
  | remove key =>
      refine access_of_guarded (fun value => .ok (.value value)) rfl ?_
      exact hcomposes.onMap map (.remove key) trivial
  | purge =>
      obtain ⟨body, heq, hbody⟩ := Operation.ComposesPasses.exists_pass_body (K := K) (V := V) map
      refine access_of_guarded (fun outcome => outcome.map fun _ => .done) ?_
        (hbody hcomposes.entries.passes)
      exact heq ▸ rfl
  | _ => exact hrequest.elim

end Access

end ExpiringMap
