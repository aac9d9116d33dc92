import ExpiringMap.Proofs.Paired.Runs
import ExpiringMap.Proofs.Pass.Notification

/-!
# The order in which a store lists its entries

A store has no order of its own, and each scan may list what it finds in another order.  Where the
screening hooks answer by the entry alone, nobody can tell: two runs whose scans list the same
entries in different orders come to the same (`pass_listing`), whatever the eviction hooks do, and
however deep the passes are nested that they call for.

Three things have to be seen to.

* **What is found** is the same entries in two orders (`pairs_search`).
* **What is let through** is the same entries again, since the screening hook answers each of them
  in the same way and leaves nothing behind but its own events, which are put aside (`Openly`).
* **What the eviction hook is told** is the same in the same order, since the numbers of entries
  tell them apart and so leave one way only to put them in order (`Entry.Apart.inOrder_eq`).  That
  they do has to be known at each pass, also at those within the calls of hooks, so it is kept along
  both runs (`Deployment.Level`).
-/

namespace ExpiringMap

variable {n : Nat} {S K V : Type}

/-! ## Screening hooks that answer by the entry -/

/-- Whether the screening hook of a policy answers by the entry alone: it remembers nothing and
makes no calls.  A policy without a hook says yes.  If the hook panics, then always with the same
payload: with two of them it would give away which of two entries it was shown first. -/
structure Policy.ScreensBy (policy : Policy n S K V) (verdict : Entry K V → Outcome Bool) :
    Prop where
  answers : ∀ entry, match policy.reaction? (.screening entry) with
    | none => verdict entry = .ok true
    | some reaction =>
        ∀ memory, reaction (.screening entry) memory = (memory, .answer (verdict entry))
  panics : ∀ {first second panic other}, verdict first = .error panic →
    verdict second = .error other → panic = other

/-- Whether an event is no matter of a screening hook. -/
def Event.isOpen : Event n K V → Bool
  | called _ (.screening _) | answered _ (.screening _) _ => false
  | _ => true

/-- Whether two journals tell the same but for what screening hooks are called with and answer. -/
def Openly (events others : List (Event n K V)) : Prop :=
  others.filter Event.isOpen = events.filter Event.isOpen

theorem Openly.cons {events others : List (Event n K V)} (event : Event n K V)
    (h : Openly events others) : Openly (event :: events) (event :: others) := by
  unfold Openly at *
  rw [List.filter_cons, List.filter_cons, h]

theorem likeness_openly : Likeness (Openly (n := n) (K := K) (V := V)) where
  nil := rfl
  cons event _ h := h.cons event

/-- Whether two deployments are the same but for the events of screening hooks since some moment,
the numbers of whose entries tell them apart. -/
structure Deployment.Level (start : List (Event n K V)) (first second : Deployment n S K V) :
    Prop where
  same : first.Matches Openly start second
  numbered : first.Numbered

/-- What is paired in deployments that match is paired in level ones if it keeps to what goes on in
deployments. -/
theorem pairs_level {α : Type} {start : List (Event n K V)}
    {through through' : Deployment n S K V → α × Deployment n S K V}
    (h : Pairs (Deployment.Matches Openly start) Eq through through')
    (hproceeds : Keeps Deployment.Proceeds through) :
    Pairs (Deployment.Level start) Eq through through' := by
  intro before before' hlevel
  obtain ⟨hresult, hsame⟩ := h hlevel.same
  exact ⟨hresult, hsame, (hproceeds before).numbered hlevel.numbered⟩

/-! ## The same entries in two orders -/

/-- Whether two lists have the same entries, whose numbers tell them apart. -/
structure Shuffled (entries others : List (Entry K V)) : Prop where
  perm : others.Perm entries
  apart : Entry.Apart entries

theorem Shuffled.filter {entries others : List (Entry K V)} (h : Shuffled entries others)
    (keep : Entry K V → Bool) : Shuffled (entries.filter keep) (others.filter keep) :=
  ⟨h.perm.filter keep, h.apart.filter keep⟩

/-- What a screening comes to if the hook answers each entry in that way. -/
def ScreenedTo (verdict : Entry K V → Outcome Bool) (entries : List (Entry K V)) :
    Outcome (List (Entry K V)) → Prop
  | .ok accepted => (∀ entry ∈ entries, (verdict entry).isOk = true) ∧
      accepted = entries.filter fun entry => (verdict entry).isYes
  | .error panic => ∃ entry ∈ entries, verdict entry = .error panic

/-- Whether two screenings come to the same: to the same entries in two orders, or to the same
panic. -/
inductive ScreenedAlike : Outcome (List (Entry K V)) → Outcome (List (Entry K V)) → Prop
  | ok {accepted others : List (Entry K V)} : Shuffled accepted others →
      ScreenedAlike (.ok accepted) (.ok others)
  | error (panic : Panic) : ScreenedAlike (.error panic) (.error panic)

theorem ScreenedTo.alike {verdict : Entry K V → Outcome Bool} {entries others : List (Entry K V)}
    (hpanics : ∀ {first second panic other}, verdict first = .error panic →
      verdict second = .error other → panic = other)
    (hentries : Shuffled entries others) {result result' : Outcome (List (Entry K V))}
    (h : ScreenedTo verdict entries result) (h' : ScreenedTo verdict others result') :
    ScreenedAlike result result' := by
  -- both panic, or both go through, since they are shown the same entries
  rcases result with panic | accepted <;> rcases result' with panic' | accepted'
  · obtain ⟨entry, -, hentry⟩ := h
    obtain ⟨entry', -, hentry'⟩ := h'
    exact hpanics hentry hentry' ▸ .error panic
  · obtain ⟨entry, hmem, hentry⟩ := h
    have hok := h'.1 entry (hentries.perm.mem_iff.mpr hmem)
    simp [hentry, Except.isOk, Except.toBool] at hok
  · obtain ⟨entry, hmem, hentry⟩ := h'
    have hok := h.1 entry (hentries.perm.mem_iff.mp hmem)
    simp [hentry, Except.isOk, Except.toBool] at hok
  · exact h.2 ▸ h'.2 ▸ .ok (hentries.filter _)

/-! ## Screening -/

/-- Whether the screening hook of a map, when it is consulted, answers each entry in that way and
leaves nothing behind but events of its own. -/
def Plan.Screens (plan : Plan n S K V) (consultation : Consultation n S K V) (map : Fin n)
    (verdict : Entry K V → Outcome Bool) : Prop :=
  ∀ entry deployment, ∃ events, events.filter Event.isOpen = [] ∧
    plan.consult consultation map (.screening entry) deployment =
      (verdict entry, deployment.note events)

namespace Operation

open Program

variable [DecidableEq K]

theorem run_screen {plan : Plan n S K V} {consultation : Consultation n S K V} {map : Fin n}
    {verdict : Entry K V → Outcome Bool} (h : plan.Screens consultation map verdict)
    (entries : List (Entry K V)) (deployment : Deployment n S K V) :
    ∃ events, events.filter Event.isOpen = [] ∧
      ((screen map entries).run (plan.respond consultation) deployment).2 =
        deployment.note events ∧
      ScreenedTo verdict entries
        ((screen map entries).run (plan.respond consultation) deployment).1 := by
  -- one entry after the other, each of which is answered as the verdict says
  induction entries generalizing deployment with
  | nil => exact ⟨[], rfl, rfl, by simp, rfl⟩
  | cons entry rest ih =>
      obtain ⟨events, hevents, hconsult⟩ := h entry deployment
      simp only [screen, consult, bind_eq, act_bind, done_bind, run_act, Plan.respond, hconsult]
      cases hverdict : verdict entry with
      | error panic =>
          exact ⟨events, hevents, rfl, entry, List.mem_cons_self .., hverdict⟩
      | ok valid =>
          -- only the rest is left, whose events come on top of those of the first consultation
          obtain ⟨more, hmore, hleft, hresult⟩ := ih (deployment.note events)
          simp only [run_bind]
          generalize (screen map rest).run (plan.respond consultation) (deployment.note events) =
            left at hleft hresult ⊢
          obtain ⟨result, after⟩ := left
          obtain rfl : after = _ := hleft
          have hboth : (deployment.note events).note more = deployment.note (events ++ more) := by
            simp [Deployment.note]
          refine ⟨events ++ more, by rw [List.filter_append, hevents, hmore, List.append_nil], ?_⟩
          cases result with
          | error panic =>
              obtain ⟨other, hother, hpanic⟩ := hresult
              exact ⟨hboth, other, List.mem_cons_of_mem _ hother, hpanic⟩
          | ok accepted =>
              obtain ⟨hok, rfl⟩ := hresult
              refine ⟨hboth, List.forall_mem_cons.mpr ⟨by rw [hverdict]; rfl, hok⟩, ?_⟩
              rw [List.filter_cons, hverdict]
              rfl

end Operation

theorem Policy.ScreensBy.screens {plan : Plan n S K V} {consultation : Consultation n S K V}
    {map : Fin n} {verdict answers : Entry K V → Outcome Bool}
    (h : (plan.settings map).policy.ScreensBy verdict)
    (hyes : ∀ entry, verdict entry = .ok true → answers entry = .ok true)
    (hscripts : ∀ entry deployment,
      consultation map (.answer (verdict entry)) deployment = (answers entry, deployment)) :
    plan.Screens consultation map answers := by
  intro entry deployment
  have hanswers := h.answers entry
  simp only [Plan.consult, Plan.enter]
  -- without a hook the entry is let through, and nothing is noted
  cases hreaction : (plan.settings map).policy.reaction? (.screening entry) with
  | none =>
      rw [hreaction] at hanswers
      exact ⟨[], rfl, by rw [hyes entry hanswers]; rfl⟩
  | some reaction =>
      rw [hreaction] at hanswers
      simp only [hanswers, hscripts]
      exact ⟨[.called map _, .answered map _ (answers entry)], rfl, rfl⟩

/-- A hook that answers by the entry alone does so at every depth, whatever the order in which
entries are listed.  Beyond the deepest calls it says yes. -/
theorem Policy.ScreensBy.exists_screens [DecidableEq K] {plan : Plan n S K V} {map : Fin n}
    {verdict : Entry K V → Outcome Bool} (h : (plan.settings map).policy.ScreensBy verdict)
    (depth : Nat) :
    ∃ answers : Entry K V → Outcome Bool,
      (∀ {first second panic other}, answers first = .error panic →
        answers second = .error other → panic = other) ∧
      ∀ enumeration : Fin n → Enumeration K V,
        let variant : Plan n S K V := { plan with enumeration }
        variant.Screens (variant.consultation depth) map answers := by
  -- at depth zero no script is run, so every entry is let through
  cases depth with
  | zero =>
      refine ⟨fun _ => .ok true, by simp, fun enumeration => ?_⟩
      intro variant
      exact (show (variant.settings map).policy.ScreensBy verdict from h).screens (fun _ _ => rfl)
        fun _ _ => rfl
  | succ depth =>
      refine ⟨verdict, h.panics, fun enumeration => ?_⟩
      intro variant
      exact (show (variant.settings map).policy.ScreensBy verdict from h).screens
        (fun _ hyes => hyes) fun _ _ => rfl

/-! ## Passes side by side -/

section Passes

open Operation Program

variable [DecidableEq K] {plan : Plan n S K V} {enumeration : Fin n → Enumeration K V}
  {depth : Nat} {start : List (Event n K V)}

theorem proceeds_steady {consultation : Consultation n S K V} {step : Step n K V}
    (h : step.IsSteady) : Keeps Deployment.Proceeds (plan.respond consultation step) := by
  intro deployment
  cases step with
  | act act =>
      rcases deployment.aside_perform plan.enumeration act with haside | ⟨map, done, rfl⟩
      · exact haside.proceeds
      · refine proceeds_onMap ?_ plan.enumeration deployment map
        cases done <;> first | exact h.elim | trivial
  | consult map hook => exact h.elim

/-- The plan whose scans list entries in another order. -/
abbrev Plan.relisted (plan : Plan n S K V) (enumeration : Fin n → Enumeration K V) : Plan n S K V :=
  plan.variant (fun _ _ => .error) enumeration

theorem pairs_steady {consultation consultation' : Consultation n S K V} {step : Step n K V}
    (h : step.IsSteady) :
    Pairs (Deployment.Level start) Eq (plan.respond consultation step)
      ((plan.relisted enumeration).respond consultation' step) := by
  refine pairs_level ?_ (proceeds_steady h)
  cases step with
  | act act => exact pairs_act likeness_openly plan _ (.inl h.listsNothing)
  | consult map hook => exact h.elim

omit [DecidableEq K] in
/-- Hooks are consulted side by side. -/
theorem pairs_consult {consultation consultation' : Consultation n S K V}
    (hscripts : PairsScripts (Deployment.Level start) consultation consultation') (map : Fin n)
    (hook : Hook K V) :
    Pairs (Deployment.Level start) Eq (plan.consult consultation map hook)
      ((plan.relisted enumeration).consult consultation' map hook) := by
  intro before before' hlevel
  have hentered := hlevel.same.enter likeness_openly plan (fun _ _ => .error) enumeration map hook
  have hnumbered := (before.aside_enter plan map hook).proceeds.numbered hlevel.numbered
  rcases consult_cases hscripts ⟨hentered.1, hentered.2, hnumbered⟩ with
    ⟨hfirst, hsecond, hleft⟩ | ⟨verdict, asked, asked', hleft, hfirst, hsecond⟩
  · exact ⟨hfirst.trans hsecond.symm, hleft⟩
  · -- both have been asked and leave with the same verdict
    rw [Plan.relisted, hfirst, hsecond, Outcome.rescued_error]
    refine ⟨rfl, hleft.same.note fun _ _ halike => ?_,
      (asked.aside_leave map hook verdict).proceeds.numbered hleft.numbered⟩
    exact halike.cons _

/-- A scan lists the same entries, whatever their order. -/
theorem pairs_scan {consultation consultation' : Consultation n S K V} (map : Fin n)
    (now : Instant) :
    Pairs (Deployment.Level start) Shuffled
      ((scan map now).run (plan.respond consultation))
      ((scan map now).run ((plan.relisted enumeration).respond consultation')) := by
  intro before before' hlevel
  have hstore := congrArg MapState.store (hlevel.same.state_eq map)
  have hfound := (plan.enumeration map).perm (before.state map).scans
    ((before.state map).store.expired now)
  refine ⟨⟨?_, (hlevel.numbered map).apart.subset fun entry hentry => ?_⟩,
    hlevel.same.perform likeness_openly plan.enumeration enumeration (.map map (.scan now)),
    (proceeds_onMap (show (MapAct.scan now).PlacesNothing from trivial) plan.enumeration before
      map).numbered hlevel.numbered⟩
  · -- either side lists what has expired, each in its own order
    have hfound' := (enumeration map).perm (before'.state map).scans
      ((before'.state map).store.expired now)
    exact (hfound'.trans (.of_eq (by rw [hstore]))).trans hfound.symm
  · exact (List.mem_filter.mp (hfound.mem_iff.mp hentry)).1

/-- A search finds the same entries, whatever their order. -/
theorem pairs_search {consultation consultation' : Consultation n S K V} (map : Fin n) :
    Pairs (Deployment.Level start) Shuffled
      ((search map).run (plan.respond consultation))
      ((search map).run ((plan.relisted enumeration).respond consultation')) := by
  have hact : ∀ {step : Step n K V}, step.IsSteady → Pairs (Deployment.Level start) Eq
      ((.act step .done : Operation n K V step.Answer).run (plan.respond consultation))
      ((.act step .done : Operation n K V step.Answer).run
        ((plan.relisted enumeration).respond consultation')) :=
    fun hstep => pairs_of_steady (fun _ => pairs_steady) (.act _ .done) ⟨hstep, fun _ => trivial⟩
  -- up to the scan nothing depends on the order
  refine pairs_bind_same (lock map) (hact trivial) fun _ => ?_
  refine pairs_bind_same (size map) (hact trivial) fun count => ?_
  refine pairs_bind_same (log map (.entryCount count)) (hact trivial) fun _ => ?_
  refine pairs_bind_same (size map) (hact trivial) fun size => ?_
  split
  · exact pairs_done ⟨.rfl, by simp [Entry.Apart]⟩
  · exact pairs_bind_same Operation.now (hact trivial) (pairs_scan map)

variable {verdict : Fin n → Entry K V → Outcome Bool}
  (hscreens : ∀ map, (plan.settings map).policy.ScreensBy (verdict map))
include hscreens

/-- A screening of the same entries lets the same entries through, whatever their order. -/
theorem pairs_screen (depth : Nat) (map : Fin n) {found found' : List (Entry K V)}
    (hfound : Shuffled found found') :
    Pairs (Deployment.Level start) ScreenedAlike
      ((screen map found).run (plan.respond (plan.consultation depth)))
      ((screen map found').run ((plan.relisted enumeration).respond
        ((plan.relisted enumeration).consultation depth))) := by
  intro before before' hlevel
  -- at this depth the screening hook gives the same answer to an entry wherever it is asked
  obtain ⟨answers, hpanics, hanswers⟩ := (hscreens map).exists_screens depth
  have hsecond := hanswers enumeration
  rw [← Plan.variant_error] at hsecond
  obtain ⟨events, hevents, hleft, hresult⟩ := run_screen (hanswers plan.enumeration) found before
  obtain ⟨events', hevents', hleft', hresult'⟩ := run_screen hsecond found' before'
  refine ⟨hresult.alike hpanics hfound hresult', ?_, ?_⟩
  · rw [hleft, hleft']
    refine hlevel.same.note fun earlier earlier' halike => ?_
    simpa [Openly, List.filter_append, List.filter_reverse, hevents, hevents'] using halike
  · have hlasting := lasting_proceeds plan
    have hmaintains :=
      (composes_proceeds (hlasting.keeps_consult depth)).entries.passes.screen map found
    exact (hmaintains before).1.numbered hlevel.numbered

/-- What is found in two orders is told to the eviction hook in one, so the same is confirmed. -/
theorem pairs_consultAll
    (hscripts : PairsScripts (Deployment.Level start) (plan.consultation depth)
      ((plan.relisted enumeration).consultation depth))
    (map : Fin n) {found found' : List (Entry K V)} (hfound : Shuffled found found') :
    Pairs (Deployment.Level start) Eq
      ((consultAll map found).run (plan.respond (plan.consultation depth)))
      ((consultAll map found').run ((plan.relisted enumeration).respond
        ((plan.relisted enumeration).consultation depth))) := by
  refine pairs_bind (pairs_screen hscreens depth map hfound) fun screened screened' hscreened => ?_
  cases hscreened with
  | error panic => exact pairs_done rfl
  | ok haccepted =>
      -- put in order, the candidates of both sides are the same list
      simp only [haccepted.apart.inOrder_eq haccepted.perm]
      refine pairs_bind_same _ (pairs_of_every _ ?_) fun confirmed => pairs_done rfl
      refine (asks_notifyAll map _).mono fun step hstep => ?_
      cases step with
      | consult other hook => exact pairs_consult hscripts other hook
      | act act =>
          cases act with
          | log other record => exact pairs_steady trivial
          | map | clock | scheduler | sleep => exact hstep.elim

/-- A pass does the same, whatever the order in which entries are listed. -/
theorem pairs_pass
    (hscripts : PairsScripts (Deployment.Level start) (plan.consultation depth)
      ((plan.relisted enumeration).consultation depth)) (map : Fin n) :
    Pairs (Deployment.Level start) Eq
      ((pass map).run (plan.respond (plan.consultation depth)))
      ((pass map).run ((plan.relisted enumeration).respond
        ((plan.relisted enumeration).consultation depth))) := by
  rw [pass_eq]
  refine pairs_bind_same _ ?_ fun result => ?_
  · exact pairs_bind (pairs_search map) fun _ _ => pairs_consultAll hscreens hscripts map
  · refine pairs_of_steady (fun _ => pairs_steady) _ ?_
    refine (concludes_conclusion map result).mono fun step hstep => ?_
    rcases hstep with ⟨entry, -, rfl⟩ | rfl | ⟨record, rfl⟩ <;> trivial

/-- Whatever is asked for is done in the same way. -/
theorem pairing_listing (enumeration : Fin n → Enumeration K V) (start : List (Event n K V)) :
    Pairing plan (fun _ _ => .error) enumeration (Deployment.Level start) where
  memory h := h.same.memory
  resume {first _} map call outcome remember h :=
    ⟨h.same.resume likeness_openly map call outcome remember,
      (first.aside_resume map call outcome remember).proceeds.numbered h.numbered⟩
  gather {first _} h := ⟨h.same.note_same likeness_openly (by simp [Event.IsAnswer]),
    first.aside_gather.proceeds.numbered h.numbered⟩
  request depth hscripts map request := by
    refine (pairs_service (fun step => pairs_steady) ?_ (pairs_pass hscreens hscripts)).serve
      (plan.settings map) map request
    -- placing an entry lists nothing, so the enumeration does not matter there
    obtain ⟨hput, hputIfAbsent⟩ : Composes.Places fun _ (operation : Operation n K V _) =>
        Pairs (Deployment.Matches Openly start) Eq
          (operation.run (plan.respond (plan.consultation depth)))
          (operation.run ((plan.relisted enumeration).respond
            ((plan.relisted enumeration).consultation depth))) :=
      places_matches likeness_openly plan _ enumeration _ _
    exact ⟨fun map key value timeout => pairs_level (hput map key value timeout)
        fun deployment => (maintains_put map key value timeout deployment).1,
      fun map key value timeout => pairs_level (hputIfAbsent map key value timeout)
        fun deployment => (maintains_putIfAbsent map key value timeout deployment).1⟩

/-- Where screening hooks answer by the entry alone, any calls come to the same, whatever the order
in which each scan lists what it finds. -/
theorem serveCalls_listing {history : Plan n S K V} {deployment : Deployment n S K V}
    (hreachable : history.Reachable deployment) (enumeration : Fin n → Enumeration K V)
    (depth : Nat) (map : Fin n) (calls : List (Call n K V)) :
    let second : Plan n S K V := { plan with enumeration }
    RunsAlike Openly deployment
      (plan.serveCalls (plan.consultation depth) map calls deployment)
      (second.serveCalls (second.consultation depth) map calls deployment) := by
  obtain ⟨hresult, hlevel⟩ :=
    (pairing_listing hscreens enumeration deployment.journal).calls depth map calls
      ⟨.refl likeness_openly deployment, hreachable.numbered⟩
  rw [← Plan.variant_error]
  exact .of_matches hresult hlevel.same fun _ _ => id

/-- Where screening hooks answer by the entry alone, a pass comes to the same, and tells the
eviction hooks the same in the same order, whatever they do and in whatever order each scan lists
what it finds. -/
theorem pass_listing {history : Plan n S K V} {deployment : Deployment n S K V}
    (hreachable : history.Reachable deployment) (enumeration : Fin n → Enumeration K V)
    (depth : Nat) (map : Fin n) :
    RunsAlike Openly deployment (plan.run depth (pass map) deployment)
      (({ plan with enumeration } : Plan n S K V).run depth (pass map) deployment) := by
  have hscripts := (pairing_listing hscreens enumeration deployment.journal).scripts depth
  obtain ⟨hresult, hlevel⟩ := pairs_pass hscreens hscripts map
    ⟨.refl likeness_openly deployment, hreachable.numbered⟩
  rw [← Plan.variant_error]
  exact .of_matches hresult hlevel.same fun _ _ => id

end Passes

/-- The enumeration that lists entries the other way round. -/
def Enumeration.reversed : Enumeration K V :=
  ⟨fun _ entries => entries.reverse, fun _ entries => entries.reverse_perm⟩

/-- The map whose eviction hook puts entries again, with two entries in it that have expired. -/
def overdueTwice : Deployment 1 Unit Nat Nat :=
  let only : Fin 1 := ⟨0, Nat.zero_lt_one⟩
  let filled := (renewing.run 0 (renewing.operation only (.map (.put 8 80 .zero)))
    overdue).2
  (renewing.run 0 (renewing.operation only (.advance 1)) filled).2

theorem reachable_overdueTwice : renewing.Reachable overdueTwice :=
  (reachable_overdue.run 0 0 _).run 0 0 _

/-- A pass over two entries that the eviction hook puts again comes to the same if they are listed
the other way round. -/
theorem pass_listing_overdueTwice :
    (∀ map, (renewing.settings map).policy.ScreensBy fun _ => .ok true) ∧
    renewing.Reachable overdueTwice ∧
    RunsAlike Openly overdueTwice (renewing.run 1 (Operation.pass 0) overdueTwice)
      (({ renewing with enumeration := fun _ => .reversed } : Plan 1 Unit Nat Nat).run 1
        (Operation.pass 0) overdueTwice) := by
  have hscreens : ∀ map, (renewing.settings map).policy.ScreensBy fun _ => .ok true :=
    fun _ => ⟨fun _ _ => rfl, by simp⟩
  exact ⟨hscreens, reachable_overdueTwice,
    pass_listing hscreens reachable_overdueTwice (fun _ => .reversed) 1 0⟩

/-- The two searches list the entries in two orders. -/
example : ((Operation.search 0).run (renewing.respond (renewing.consultation 1))
      overdueTwice).1.map Entry.key = [8, 7] ∧
    ((Operation.search 0).run ((renewing.relisted fun _ => .reversed).respond
      (renewing.consultation 1)) overdueTwice).1.map Entry.key = [7, 8] :=
  ⟨rfl, rfl⟩

end ExpiringMap
