import ExpiringMap.Proofs.Pass.Eviction

/-!
# Panics on their way out

A hook that panics has not necessarily raised the panic itself.  A pass that it has asked for may
have ended in it, and unless the script of the hook deals with that, the hook ends in it, too
(`Script.Makes.error_of_unwinds`).  So a panic goes from pass to pass, as long as each of them was
asked for by a screening hook.

It comes no further than to a pass that was consulting its eviction hook.  There it is written to
the log, and the pass goes on with the next candidate as if the hook had refused (`pass_catches`).
-/

namespace ExpiringMap

variable {n : Nat} {S K V : Type}

/-! ## Scripts that let panics through -/

/-- Whether a script that makes a call that panics ends with that panic. -/
def Script.Unwinds : Script n S K V → Prop
  | .answer _ => True
  | .call _ _ next =>
      (∀ panic memory, next (.error panic) memory = .answer (.error panic)) ∧
        ∀ answer memory, (next (.ok answer) memory).Unwinds

theorem Script.unwinds_ofCalls (verdict : Outcome Bool) (calls : List (Call n K V)) :
    (Script.ofCalls verdict calls : Script n S K V).Unwinds := by
  induction calls with
  | nil => trivial
  | cons made rest ih => exact ⟨fun _ _ => rfl, fun _ _ => ih⟩

section Making

variable (serve : Call n K V → Deployment n S K V → Outcome (Answer V) × Deployment n S K V)
  (map : Fin n) (call : Call n K V) (calling : Deployment n S K V)

/-- Whether the script of a hook of a map, when it is run, comes to make a call, and how things are
then. -/
inductive Script.Makes : Script n S K V → Deployment n S K V → Prop
  | now {remember : Outcome (Answer V) → S → S} {next : Outcome (Answer V) → S → Script n S K V} :
      Makes (.call call remember next) calling
  | later {made : Call n K V} {remember : Outcome (Answer V) → S → S}
      {next : Outcome (Answer V) → S → Script n S K V} {outcome : Outcome (Answer V)} {memory : S}
      {deployment served resumed : Deployment n S K V} :
      serve made deployment = (outcome, served) →
      served.resume map made outcome (remember outcome) = (memory, resumed) →
      Makes (next outcome memory) resumed → Makes (.call made remember next) deployment

variable {serve map call calling}

/-- A script that lets panics through ends with the panic of any call that it comes to make. -/
theorem Script.Makes.error_of_unwinds {script : Script n S K V} {deployment : Deployment n S K V}
    (h : script.Makes serve map call calling deployment) (hunwinds : script.Unwinds)
    {panic : Panic} (hpanic : (serve call calling).1 = .error panic) :
    (script.run serve map deployment).1 = .error panic := by
  induction h with
  | @now remember next =>
      simp only [Script.run, hpanic, hunwinds.1]
  | @later made remember next outcome memory _ served resumed hserved hresumed hmakes ih =>
      simp only [Script.run, hserved, hresumed]
      cases outcome with
      | ok answer => exact ih (hunwinds.2 answer memory)
      | error panic' =>
          -- a script that has ended makes no call
          rw [hunwinds.1] at hmakes
          cases hmakes

end Making

section Hooks

variable [DecidableEq K] {plan : Plan n S K V} {depth : Nat} {outer map : Fin n}
  {hook : Hook K V} {before found : Deployment n S K V} {panic : Panic}

/-- Whether a hook of a map, when it is called, comes to ask for the pass over a map that finds
things like this, and lets panics through. -/
def Plan.AsksForPass (plan : Plan n S K V) (depth : Nat) (outer : Fin n) (hook : Hook K V)
    (before : Deployment n S K V) (map : Fin n) (found : Deployment n S K V) : Prop :=
  ∃ script entered path calling, plan.enter before outer hook = (some script, entered) ∧
    script.Unwinds ∧ Path.last path outer = map ∧
    script.Makes (plan.serve (plan.consultation depth) outer) outer (.ask path (.map .purge))
      calling entered ∧
    calling.onMap plan.enumeration map .borrow = (true, found)

/-- A caller who asks for a pass is told of the panic that it ends in. -/
theorem Plan.serve_purge {caller : Fin n} {path : Path n} {calling : Deployment n S K V}
    (hlast : path.last caller = map)
    (hborrow : calling.onMap plan.enumeration map .borrow = (true, found))
    (hpanic : (plan.run depth (Operation.pass map) found).1 = .error panic) :
    (plan.serve (plan.consultation depth) caller (.ask path (.map .purge)) calling).1 =
      .error panic := by
  subst hlast
  simp only [Plan.run] at hpanic
  simp [Plan.serve, Plan.operation, Operation.serve, Operation.withHandle, Operation.serveMap,
    Operation.borrow, Operation.onMap, Plan.respond, Deployment.perform, hborrow, hpanic]
  rfl

/-- A hook that has asked for a pass and lets panics through ends in the panic of the pass. -/
theorem Plan.AsksForPass.consult_error (h : plan.AsksForPass depth outer hook before map found)
    (hpanic : (plan.run depth (Operation.pass map) found).1 = .error panic) :
    (plan.consult (plan.consultation (depth + 1)) outer hook before).1 = .error panic := by
  obtain ⟨script, entered, path, calling, hentered, hunwinds, hlast, hmakes, hborrow⟩ := h
  simp only [Plan.consult, hentered]
  exact hmakes.error_of_unwinds hunwinds (Plan.serve_purge hlast hborrow hpanic)

/-- So whoever has consulted the hook is told of that panic. -/
theorem Plan.AsksForPass.verdict_eq (h : plan.AsksForPass depth outer hook before map found)
    (hpanic : (plan.run depth (Operation.pass map) found).1 = .error panic) {α : Type}
    {operation : Operation n K V α} {opened asked : Deployment n S K V} {verdict : Outcome Bool}
    (hmem : ⟨.consult outer hook, verdict, before, asked⟩ ∈
      operation.trace (plan.respond (plan.consultation (depth + 1))) opened) :
    verdict = .error panic :=
  (congrArg Prod.fst (Program.respond_of_mem_trace _ hmem)).symm.trans (h.consult_error hpanic)

end Hooks

/-! ## Passes that catch a panic -/

namespace Operation

open Program

variable [DecidableEq K]

/-- What a pass does that catches a panic of its eviction hook, given the deployments that it found
and left and what the hooks have said. -/
structure Catches (map : Fin n) (key : K) (value : V) (panic : Panic)
    (found left : Deployment n S K V) (moments : List (Moment n S K V))
    (screened notified : List (Entry K V × Outcome Bool)) : Prop where
  /-- The panic is written to the log at once. -/
  recorded : ∃ earlier before asked later,
    moments = earlier ++ ⟨.consult map (.eviction key value), .error panic, before, asked⟩ ::
      ⟨.act (.log map (.hookPanicked panic)), (), asked,
        asked.note [.logged map (.hookPanicked panic)]⟩ :: later
  /-- The screening hook is shown what has expired. -/
  shown : (screened.map Prod.fst).Perm ((found.state map).store.expired (found.onClock .read).1)
  /-- The eviction hook is told of all candidates in their order, also of those that come next. -/
  told : consultations moments = screenings map screened ++ notifications map notified ∧
    notified.map Prod.fst = Entry.inOrder (agreed screened)
  /-- When all have been told, those that have been confirmed are taken out.  What is under the key
  of the panic then stays. -/
  keeps : ∃ opening closing, moments = opening ++ closing ∧ consultations closing = [] ∧
    (left.state map).store =
      ((reached found opening).state map).store.without (tags (agreed notified)) ∧
    ∀ kept ∈ ((reached found opening).state map).store.entries,
      kept.key = key → kept ∈ (left.state map).store.entries

section Catching

variable {plan : Plan n S K V} {consultation : Consultation n S K V} {map : Fin n} {key : K}
  {value : V} {panic : Panic} {found before asked : Deployment n S K V}

/-- When the eviction hook has panicked, the next step is to write that to the log. -/
theorem recorded_notifyAll {entries : List (Entry K V)}
    (h : ⟨.consult map (.eviction key value), .error panic, before, asked⟩ ∈
      (notifyAll map entries).trace (plan.respond consultation) found) :
    ∃ earlier later,
      (notifyAll map entries).trace (plan.respond consultation) found =
        earlier ++ ⟨.consult map (.eviction key value), .error panic, before, asked⟩ ::
          ⟨.act (.log map (.hookPanicked panic)), (), asked,
            asked.note [.logged map (.hookPanicked panic)]⟩ :: later := by
  -- along the candidates, up to the one at which the hook has panicked
  induction entries generalizing found with
  | nil => simp [notifyAll] at h
  | cons entry rest ih =>
      simp only [notifyAll, notify, bind_eq, consult, act_bind, done_bind, trace_act] at h ⊢
      generalize plan.respond consultation (.consult map (.eviction entry.key entry.value)) found =
        told at h ⊢
      obtain ⟨verdict, after⟩ := told
      cases verdict with
      -- this candidate has been answered, so the panic is that of a later one
      | ok confirmed =>
          simp only [pure_eq_done, done_bind, trace_bind, trace_done, List.append_nil] at h ⊢
          rcases List.mem_cons.mp h with heq | h
          · cases heq
          · obtain ⟨earlier, later, heq⟩ := ih h
            exact ⟨_ :: earlier, later, by rw [heq]; rfl⟩
      | error panic' =>
          simp only [log, act_bind, done_bind, trace_act, pure_eq_done, trace_bind, trace_done,
            List.append_nil] at h ⊢
          rcases List.mem_cons.mp h with heq | h
          · cases heq
            exact ⟨[], _, rfl⟩
          rcases List.mem_cons.mp h with heq | h
          · cases heq
          · obtain ⟨earlier, later, heq⟩ := ih h
            exact ⟨_ :: _ :: earlier, later, by rw [heq]; rfl⟩

/-- The eviction hook is told of entries only by the loop over the candidates. -/
theorem exists_notifyAll_of_mem_pass {verdict : Outcome Bool}
    (h : ⟨.consult map (.eviction key value), verdict, before, asked⟩ ∈
      (pass map).trace (plan.respond consultation) found) :
    ∃ opening closing candidates deployment,
      (pass map).trace (plan.respond consultation) found =
        opening ++ (notifyAll map candidates).trace (plan.respond consultation) deployment ++
          closing ∧
      ⟨.consult map (.eviction key value), verdict, before, asked⟩ ∈
        (notifyAll map candidates).trace (plan.respond consultation) deployment := by
  rw [pass_eq, trace_bind] at h ⊢
  set result := (inquiry map).run (plan.respond consultation) found
  have hinquiry : ⟨.consult map (.eviction key value), verdict, before, asked⟩ ∈
      (inquiry map).trace (plan.respond consultation) found := by
    -- after the last notification nobody is asked
    refine (List.mem_append.mp h).resolve_right fun h => ?_
    exact (settles_conclusion map result.1).of_mem_trace h
  rw [inquiry, bind_eq, trace_bind] at hinquiry ⊢
  set searched := (search map).run (plan.respond consultation) found
  rcases List.mem_append.mp hinquiry with hmem | hmem
  · -- while the entries are searched nobody is asked either
    simpa [Step.Searches] using (searches_search map).of_mem_trace hmem
  rw [consultAll, bind_eq, trace_bind] at hmem ⊢
  rcases List.mem_append.mp hmem with hmem | hmem
  · simpa using (shows_screen map searched.1).of_mem_trace hmem
  set screened := (screen map searched.1).run (plan.respond consultation) searched.2
  rcases hscreened : screened.1 with panic | accepted <;> rw [hscreened] at hmem
  · simp at hmem
  · simp only [bind_eq, pure_eq_done, trace_bind, trace_done, List.append_nil] at hmem ⊢
    refine ⟨(search map).trace (plan.respond consultation) found ++
      (screen map searched.1).trace (plan.respond consultation) searched.2,
      (conclusion map result.1).trace (plan.respond consultation) result.2, _, _, ?_, hmem⟩
    simp only [List.append_assoc]

/-- A pass catches every panic of its eviction hook, wherever the panic comes from. -/
theorem pass_catches
    (h : ⟨.consult map (.eviction key value), .error panic, before, asked⟩ ∈
      (pass map).trace (plan.respond consultation) found) :
    ((pass map).run (plan.respond consultation) found).1 = .ok () ∧
      ∃ screened notified, Catches map key value panic found
        ((pass map).run (plan.respond consultation) found).2
        ((pass map).trace (plan.respond consultation) found) screened notified := by
  obtain ⟨listed, screened, notified, hconsulted, -, hlisted, hshort, hresult⟩ :=
    inquiry_course plan consultation map found
  set inquired := (inquiry map).run (plan.respond consultation) found with hinquired
  have htold : (map, .eviction key value, .error panic) ∈ notifications map notified := by
    have hmem : (map, .eviction key value, .error panic) ∈
        consultations ((pass map).trace (plan.respond consultation) found) :=
      List.mem_filterMap.mpr ⟨_, h, rfl⟩
    rw [consultations_pass, hconsulted] at hmem
    refine (List.mem_append.mp hmem).resolve_left fun hmem => ?_
    obtain ⟨pair, -, heq⟩ := List.mem_map.mp hmem
    simp at heq
  obtain ⟨⟨entry, verdict⟩, hpair, heq⟩ := List.mem_map.mp htold
  obtain ⟨⟨rfl, rfl⟩, rfl⟩ : (entry.key = key ∧ entry.value = value) ∧ verdict = .error panic := by
    simpa using heq
  -- the hook has been told of something, so no screening has panicked
  rcases hcame : inquired.1 with panic' | ⟨candidates, confirmed⟩ <;> rw [hcame] at hresult
  · rw [hresult.1] at hpair
    cases hpair
  have hnodup : (screened.map Prod.fst).Nodup :=
    (hlisted.nodup_iff.mpr (Store.nodup_expired _ _)).sublist hshort.sublist
  have hentries : ∀ pair ∈ screened ++ notified, pair.1 ∈ (found.state map).store.entries :=
    fun pair hpair => hresult.mem_entries hlisted hshort hpair
  obtain ⟨hstore, -, -⟩ := conclusion_course plan consultation map hresult inquired.2
  obtain ⟨hall, -, hcandidates, hnotified, -⟩ := id hresult
  refine ⟨?_, screened, notified, ?_⟩
  · rw [pass_eq, run_bind, ← hinquired, hcame]
    cases candidates <;> simp [conclusion]
  constructor
  case recorded =>
    obtain ⟨opening, closing, candidates, deployment, htrace, hmem⟩ :=
      exists_notifyAll_of_mem_pass h
    obtain ⟨earlier, later, heq⟩ := recorded_notifyAll hmem
    refine ⟨opening ++ earlier, before, asked, later ++ closing, ?_⟩
    rw [htrace, heq]
    simp
  case shown => exact hall ▸ hlisted
  case told => exact ⟨by rw [consultations_pass, hconsulted], hnotified.trans hcandidates⟩
  case keeps =>
    refine ⟨(inquiry map).trace (plan.respond consultation) found,
      (conclusion map inquired.1).trace (plan.respond consultation) inquired.2,
      by rw [pass_eq, trace_bind], consultations_conclusion .., ?_, ?_⟩
    · rw [reached_trace, pass_eq, run_bind, ← hinquired, hcame]
      exact hstore
    · intro kept hkept hkey
      rw [reached_trace, ← hinquired] at hkept
      rw [pass_eq, run_bind, ← hinquired, hcame, hstore]
      refine mem_without_tags.mpr ⟨hkept, fun other hother hkey' _ => ?_⟩
      -- two entries that were found under one key are one entry, which was not confirmed
      have hconfirmed := (mem_agreed ..).mp hother
      have heq : entry = other := Store.eq_of_key_eq
        (hentries _ (List.mem_append_right screened hpair))
        (hentries _ (List.mem_append_right screened hconfirmed)) (hkey.symm.trans hkey')
      exact hresult.not_mem_agreed hnodup (List.mem_append_right screened hpair) rfl (heq ▸ hother)

end Catching

end Operation

end ExpiringMap
