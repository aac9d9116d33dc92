import ExpiringMap.Proofs.Lasting
import ExpiringMap.Proofs.Operation.Composition
import ExpiringMap.Proofs.Pass.Course

/-!
# What passes go by

Whatever a pass does with an entry, it does because its scan has listed it: it shows the hooks what
is on the list, and takes out nothing else (`goesByScans_pass`).  So in all that is done for a
request, a step that shows or evicts an entry goes by the latest scan before it
(`goesByScans_serve`).
-/

namespace ExpiringMap

variable {n : Nat} {S K V α β : Type}

/-- Whether a step is one that a pass takes for an entry: it shows it to a hook or takes it out. -/
def Step.IsForEntry : Step n K V → Prop
  | .consult .. | .act (.map _ (.removeIfSame ..)) => True
  | _ => False

def Step.IsScan : Step n K V → Prop
  | .act (.map _ (.scan _)) => True
  | _ => False

/-- Whether a hook is called with an entry. -/
def Hook.IsAbout (hook : Hook K V) (entry : Entry K V) : Prop :=
  hook = .screening entry ∨ hook = .eviction entry.key entry.value

/-- Whether a step is taken for one of the entries that a scan of a map has listed. -/
def Step.Uses (map : Fin n) (found : List (Entry K V)) (step : Step n K V) : Prop :=
  (∃ entry ∈ found, ∃ hook, hook.IsAbout entry ∧ step = .consult map hook) ∨ step.Removes map found

theorem Step.Uses.exists_listed {map other : Fin n} {key : K} {seq : Nat}
    {found : List (Entry K V)}
    (h : (Step.act (.map map (.removeIfSame key seq))).Uses other found) :
    map = other ∧ ∃ listed ∈ found, listed.key = key ∧ listed.seq = seq := by
  rcases h with ⟨shown, -, hook, -, heq⟩ | ⟨listed, hlisted, heq⟩
  · cases heq
  · obtain ⟨rfl, hsame⟩ := Act.map.inj (Step.act.inj heq)
    obtain ⟨rfl, rfl⟩ := MapAct.removeIfSame.inj hsame
    exact ⟨rfl, listed, hlisted, rfl, rfl⟩

/-- Whether a step belongs to a pass that has listed these entries. -/
def Step.Follows (map : Fin n) (found : List (Entry K V)) (step : Step n K V) : Prop :=
  ¬ step.IsScan ∧ (step.IsForEntry → step.Uses map found)

/-- Whether the latest scan among some steps was one of that map, at that instant, and listed these
entries of the deployment that it found. -/
def LatestScan (moments : List (Moment n S K V)) (map : Fin n) (now : Instant)
    (found : List (Entry K V)) (scanned : Deployment n S K V) : Prop :=
  ∃ after sooner between,
    moments = sooner ++ ⟨.act (.map map (.scan now)), found, scanned, after⟩ :: between ∧
      ∀ other ∈ between, ¬ other.act.IsScan

/-- Whether in some steps each one that is taken for an entry goes by the latest scan before it. -/
def GoesByScans (moments : List (Moment n S K V)) : Prop :=
  ∀ earlier moment later, moments = earlier ++ moment :: later → moment.act.IsForEntry →
    ∃ map now found scanned, LatestScan earlier map now found scanned ∧ moment.act.Uses map found

theorem goesByScans_of_none {moments : List (Moment n S K V)}
    (h : ∀ moment ∈ moments, ¬ moment.act.IsForEntry) : GoesByScans moments := by
  rintro earlier moment later rfl hfor
  exact absurd hfor (h moment (by simp))

theorem GoesByScans.append {earlier later : List (Moment n S K V)} (h : GoesByScans earlier)
    (h' : GoesByScans later) : GoesByScans (earlier ++ later) := by
  intro before moment after hsplit hfor
  rcases List.append_eq_append_iff.mp hsplit with ⟨rest, rfl, hlater⟩ | ⟨rest, hearlier, hafter⟩
  · -- the step is among the later ones
    obtain ⟨map, now, found, scanned, ⟨last, sooner, between, rfl, hquiet⟩, huses⟩ :=
      h' rest moment after hlater hfor
    exact ⟨map, now, found, scanned, ⟨last, earlier ++ sooner, between, by simp, hquiet⟩, huses⟩
  · cases rest with
    | nil =>
        obtain rfl : earlier = before := by simpa using hearlier
        obtain ⟨map, now, found, scanned, ⟨last, sooner, between, hnone, hquiet⟩, huses⟩ :=
          h' [] moment after hafter.symm hfor
        simp at hnone
    | cons other rest =>
        obtain ⟨rfl, rfl⟩ := List.cons.inj hafter
        exact h before moment rest hearlier hfor

/-- Steps that belong to a pass go by its scan. -/
theorem goesByScans_scan {map : Fin n} {now : Instant} {found : List (Entry K V)}
    {before after : Deployment n S K V} {sooner rest : List (Moment n S K V)}
    (hsooner : ∀ moment ∈ sooner, ¬ moment.act.IsForEntry)
    (hrest : ∀ moment ∈ rest, moment.act.Follows map found) :
    GoesByScans (sooner ++ ⟨.act (.map map (.scan now)), found, before, after⟩ :: rest) := by
  intro earlier moment later hsplit hfor
  -- the moment comes either with the scan or after it, or before it
  rcases List.append_eq_append_iff.mp hsplit with ⟨between, rfl, hlater⟩ | ⟨others, rfl, hlater⟩
  · cases between with
    | nil =>
        obtain ⟨rfl, -⟩ := List.cons.inj hlater
        exact hfor.elim
    | cons scan between =>
        obtain ⟨rfl, rfl⟩ := List.cons.inj hlater
        refine ⟨map, now, found, before, ⟨after, sooner, between, rfl, fun other hother => ?_⟩, ?_⟩
        · exact (hrest other (List.mem_append_left _ hother)).1
        · exact (hrest moment (by simp)).2 hfor
  · cases others with
    | nil =>
        obtain ⟨rfl, -⟩ := List.cons.inj hlater
        exact hfor.elim
    | cons other others =>
        obtain ⟨rfl, -⟩ := List.cons.inj hlater
        exact absurd hfor (hsooner moment (by simp))

/-- Nothing that had happened by the latest scan before a step has been undone by then, and what the
scan listed had expired. -/
theorem LatestScan.of_trace [DecidableEq K] {plan : Plan n S K V}
    {consultation : Consultation n S K V} {operation : Operation n K V α}
    {deployment scanned : Deployment n S K V} {earlier rest : List (Moment n S K V)}
    {moment : Moment n S K V} {map : Fin n} {now : Instant} {found : List (Entry K V)}
    (h : LatestScan earlier map now found scanned)
    (hprecedes : ∀ map hook, Keeps Deployment.Precedes (plan.consult consultation map hook))
    (hsplit : operation.trace (plan.respond consultation) deployment =
      earlier ++ moment :: rest) :
    (∃ scan ∈ operation.trace (plan.respond consultation) deployment,
      scan.act = .act (.map map (.scan now)) ∧ scan.before = scanned) ∧
        scanned.Precedes moment.before ∧
          ∀ listed ∈ found, listed ∈ (scanned.state map).store.expired now := by
  obtain ⟨after, first, between, rfl, -⟩ := h
  set scan : Moment n S K V := ⟨.act (.map map (.scan now)), found, scanned, after⟩
  -- the scan is a moment of the trace, so the step before it has answered it
  have hmem : scan ∈ operation.trace (plan.respond consultation) deployment := by
    rw [hsplit]
    simp
  have hrespond : scanned.onMap plan.enumeration map (.scan now) = (found, after) :=
    Program.respond_of_mem_trace _ hmem
  refine ⟨⟨scan, hmem, rfl, rfl⟩, ?_, fun listed hlisted => ?_⟩
  · have hpairwise :=
      (stepwise_precedes plan).pairwise_of_consult hprecedes operation deployment
    rw [hsplit, List.append_assoc] at hpairwise
    have hrest := (List.pairwise_append.mp hpairwise).2.1
    have hscanned := scanned.precedes_onMap plan.enumeration map (.scan now)
    rw [hrespond] at hscanned
    exact hscanned.trans ((List.pairwise_cons.mp hrest).1 moment (by simp))
  · obtain rfl : (plan.enumeration map).arrange _ _ = found := congrArg Prod.fst hrespond
    exact ((plan.enumeration map).perm _ _).mem_iff.mp hlisted

/-- A consultation is among those that can be read off the steps. -/
theorem mem_consultations {moments : List (Moment n S K V)} {moment : Moment n S K V}
    (hmoment : moment ∈ moments) {map : Fin n} {hook : Hook K V}
    (hact : moment.act = .consult map hook) :
    ∃ verdict, (map, hook, verdict) ∈ consultations moments := by
  obtain ⟨step, answer, before, after⟩ := moment
  obtain rfl : step = .consult map hook := hact
  exact ⟨answer, List.mem_filterMap.mpr ⟨_, hmoment, rfl⟩⟩

namespace Operation

open Program

variable [DecidableEq K] {plan : Plan n S K V} {consultation : Consultation n S K V}

/-! ## The parts of a pass -/

variable (plan consultation) in
/-- Whether what an operation gives, unless it is nothing, is the answer to a scan that it ends
with. -/
def Lists (map : Fin n) (operation : Operation n K V (List (Entry K V))) : Prop :=
  ∀ deployment, (operation.run (plan.respond consultation) deployment).1 ≠ [] →
    ∃ (sooner : List (Moment n S K V)) (now : Instant) (before after : Deployment n S K V),
      operation.trace (plan.respond consultation) deployment =
        sooner ++ [⟨.act (.map map (.scan now)),
          (operation.run (plan.respond consultation) deployment).1, before, after⟩]

theorem lists_bind {map : Fin n} {operation : Operation n K V α}
    {next : α → Operation n K V (List (Entry K V))}
    (h : ∀ result, Lists plan consultation map (next result)) :
    Lists plan consultation map (operation.bind next) := by
  intro deployment hfound
  rw [run_bind] at hfound ⊢
  obtain ⟨sooner, now, before, after, htrace⟩ := h _ _ hfound
  refine ⟨operation.trace (plan.respond consultation) deployment ++ sooner, now, before, after, ?_⟩
  rw [trace_bind, htrace, List.append_assoc]

theorem lists_search (map : Fin n) : Lists plan consultation map (search map) := by
  refine lists_bind fun _ => lists_bind fun count => lists_bind fun _ => lists_bind fun size => ?_
  split
  · exact fun _ hfound => absurd rfl hfound
  · exact lists_bind fun now deployment _ => ⟨[], now, _, _, rfl⟩

omit [DecidableEq K] in
/-- Before it consults a hook, a pass shows no entry and takes none out. -/
theorem forNone_search (map : Fin n) :
    (search (K := K) (V := V) map).Every fun step => ¬ step.IsForEntry := by
  refine (searches_search map).mono fun step hstep => ?_
  rcases hstep with rfl | rfl | ⟨now, rfl⟩ | rfl | ⟨count, rfl⟩ <;> exact id

/-- The hooks are shown what has been listed. -/
theorem follows_consultAll (map : Fin n) (found : List (Entry K V))
    (deployment : Deployment n S K V) :
    ∀ moment : Moment n S K V, moment ∈
      (consultAll map found).trace (plan.respond consultation) deployment →
        moment.act.Follows map found := by
  intro moment hmoment
  obtain ⟨screened, notified, hconsulted, hshort, hresult⟩ :=
    consultAll_course plan consultation map found deployment
  have hasks := (asks_consultAll map found).of_mem_trace hmoment
  have hlisted : ∀ pair ∈ screened ++ notified, pair.1 ∈ found := fun pair hpair =>
    hshort.subset (hresult.mem_fst_screened hpair)
  -- a pass acts on nothing but the log while it asks
  cases hact : moment.act with
  | act act =>
      rw [hact] at hasks
      cases act with
      | log other record => exact ⟨id, fun hfor => hfor.elim⟩
      | map | clock | scheduler | sleep => exact hasks.elim
  | consult other hook =>
      rw [hact] at hasks
      obtain rfl : other = map := hasks
      refine ⟨id, fun _ => .inl ?_⟩
      -- whatever it asks is about an entry that has been listed
      obtain ⟨verdict, hmem⟩ := mem_consultations hmoment hact
      rw [hconsulted] at hmem
      rcases List.mem_append.mp hmem with hmem | hmem
      · obtain ⟨pair, hpair, heq⟩ := List.mem_map.mp hmem
        obtain ⟨-, rfl, -⟩ : other = other ∧ Hook.screening pair.1 = hook ∧ pair.2 = verdict := by
          simpa using heq
        exact ⟨pair.1, hlisted pair (List.mem_append_left _ hpair), _, .inl rfl, rfl⟩
      · obtain ⟨pair, hpair, heq⟩ := List.mem_map.mp hmem
        obtain ⟨-, rfl, -⟩ : other = other ∧ Hook.eviction pair.1.key pair.1.value = hook ∧
            pair.2 = verdict := by simpa using heq
        exact ⟨pair.1, hlisted pair (List.mem_append_right _ hpair), _, .inr rfl, rfl⟩

omit [DecidableEq K] in
/-- What is taken out has been listed. -/
theorem follows_conclusion (map : Fin n) {found : List (Entry K V)}
    {result : Outcome (List (Entry K V) × List (Entry K V))}
    (hconfirmed : confirmedBy result ⊆ found) :
    (conclusion map result).Every (Step.Follows map found) := by
  refine (concludes_conclusion map result).mono fun step hstep => ?_
  rcases hstep with ⟨entry, hentry, rfl⟩ | rfl | ⟨record, rfl⟩
  · exact ⟨id, fun _ => .inr ⟨entry, hconfirmed hentry, rfl⟩⟩
  · exact ⟨id, fun hfor => hfor.elim⟩
  · exact ⟨id, fun hfor => hfor.elim⟩

/-! ## Passes and requests -/

/-- Whatever a pass does for an entry, it does for one that its scan has listed. -/
theorem goesByScans_pass (map : Fin n) (deployment : Deployment n S K V) :
    GoesByScans ((pass map).trace (plan.respond consultation) deployment) := by
  set respond := plan.respond consultation
  set found := ((search map).run respond deployment).1 with hfound
  set searched := ((search map).run respond deployment).2
  set result := ((consultAll map found).run respond searched).1
  set consulted := ((consultAll map found).run respond searched).2
  have htrace : (pass map).trace respond deployment =
      (search map).trace respond deployment ++ ((consultAll map found).trace respond searched ++
        (conclusion map result).trace respond consulted) := by
    rw [pass_eq, inquiry, bind_eq, Program.bind_assoc, trace_bind, trace_bind]
  have hsearch : ∀ moment ∈ (search map).trace respond deployment, ¬ moment.act.IsForEntry :=
    fun moment hmoment => (forNone_search map).of_mem_trace hmoment
  have hrest : ∀ moment ∈ (consultAll map found).trace respond searched ++
      (conclusion map result).trace respond consulted, moment.act.Follows map found := by
    intro moment hmoment
    rcases List.mem_append.mp hmoment with hmoment | hmoment
    · exact follows_consultAll map found searched moment hmoment
    · obtain ⟨screened, notified, -, hshort, hresult⟩ :=
        consultAll_course plan consultation map found searched
      refine (follows_conclusion map fun entry hentry => ?_).of_mem_trace hmoment
      have hagreed := (mem_agreed ..).mp (hresult.confirmedBy_subset hentry)
      exact hshort.subset (hresult.mem_fst_screened (List.mem_append_right _ hagreed))
  rw [htrace]
  by_cases hnone : found = []
  · -- nothing has been listed, so there is nothing to be done for it
    refine goesByScans_of_none fun moment hmoment hfor => ?_
    rcases List.mem_append.mp hmoment with hmoment | hmoment
    · exact hsearch moment hmoment hfor
    · have huses := (hrest moment hmoment).2 hfor
      simp [Step.Uses, Step.Removes, hnone] at huses
  · obtain ⟨sooner, now, before, after, hlists⟩ := lists_search map deployment hnone
    rw [hlists, List.append_assoc]
    refine goesByScans_scan (fun moment hmoment => hsearch moment ?_) hrest
    rw [hlists]
    exact List.mem_append_left _ hmoment

variable (plan consultation) in
theorem composes_goesByScans :
    ComposesService fun _ operation => ∀ deployment,
      GoesByScans (operation.trace (plan.respond consultation) deployment) := by
  have hnone : ∀ {α : Type} {operation : Operation n K V α},
      (operation.Every fun step => ¬ step.IsForEntry) → ∀ deployment,
        GoesByScans (operation.trace (plan.respond consultation) deployment) :=
    fun h _ => goesByScans_of_none fun _ hmoment => h.of_mem_trace hmoment
  -- only a pass does anything for an entry that it has found
  constructor
  case toComposesQuiet =>
    constructor
    case done => exact fun result => hnone trivial
    case step =>
      refine fun step hstep => hnone ⟨fun hfor => ?_, fun _ => trivial⟩
      cases step with
      | act act =>
          cases act with
          | map map done => cases done <;> first | exact hfor | exact hstep
          | clock | scheduler | log | sleep => exact hfor
      | consult map hook => exact hstep
    case bind =>
      intro α β operation next hoperation hnext deployment
      rw [trace_bind]
      exact (hoperation deployment).append (hnext _ _)
    case get =>
      exact fun map key => hnone (every_guarded id id ⟨id, fun _ => ⟨id, fun _ => trivial⟩⟩)
    case pass => exact goesByScans_pass
  case put =>
    exact fun map key value timeout => hnone
      (every_guarded id id ⟨id, fun _ => ⟨id, fun _ => ⟨id, fun _ => trivial⟩⟩⟩)
  case putIfAbsent =>
    exact fun map key value timeout => hnone
      (every_guarded id id ⟨id, fun _ => ⟨id, fun _ => ⟨id, fun _ => trivial⟩⟩⟩)
  case remove =>
    exact fun map key => hnone (every_guarded id id ⟨id, fun _ => trivial⟩)
  case empty => exact fun map => hnone (every_guarded id id ⟨id, fun _ => trivial⟩)

end Operation

/-- In whatever is done for a request, a step that shows an entry to a hook or evicts one goes by
the latest scan before it. -/
theorem goesByScans_serve [DecidableEq K] (plan : Plan n S K V)
    (consultation : Consultation n S K V) (map : Fin n) (request : Request K V)
    (deployment : Deployment n S K V) :
    GoesByScans ((plan.operation map request).trace (plan.respond consultation) deployment) :=
  (Operation.composes_goesByScans plan consultation).serve (plan.settings map) map request
    deployment

end ExpiringMap
