import ExpiringMap.Proofs.Operation.Access
import ExpiringMap.Proofs.Traffic.Duties

/-!
# Threads with keys of their own

Threads put, get and remove entries, each under keys that belong to nobody else, while others make
passes.  None of them notices the others, even if they go by no lock: each is given what it is given
when it makes its requests alone, and finds under its keys what it has left there
(`tenants_undisturbed`).  Timestamps and sequence numbers do differ, so the comparison is about
values and timeouts.  What is known of each thread throughout is what it is about and that its
requests have come so far to what they come to alone (`Tenant`).
-/

namespace ExpiringMap

variable {n : Nat} {S K V : Type}

/-! ## What is found under a key -/

section Contents

variable [DecidableEq K]

/-- The value under a key and its timeout. -/
def Store.contents (store : Store K V) (key : K) : Option (V × Duration) :=
  (store.lookup key).map fun entry => (entry.value, entry.timeout)

/-- What a request for a single entry leaves under its key, given what is found there. -/
def MapRequest.leaves : MapRequest K V → Option (V × Duration) → Option (V × Duration)
  | put _ value timeout, _ => some (value, timeout)
  | putIfAbsent _ value timeout, present => present.or (some (value, timeout))
  | remove _, _ => none
  | _, present => present

/-- Whether a request for a single entry has changed a store as it should, and has been given the
value that it should. -/
structure MapRequest.Settles (request : MapRequest K V) (key : K) (before after : Store K V)
    (value : Option V) : Prop where
  value : value = (before.contents key).map Prod.fst
  own : after.contents key = request.leaves (before.contents key)
  others : ∀ other, other ≠ key → after.contents other = before.contents other

/-- That a sequence number has been taken before makes no difference. -/
theorem MapRequest.Settles.of_reserve {request : MapRequest K V} {key : K}
    {before after : Store K V} {value : Option V}
    (h : request.Settles key before.reserve.2 after value) :
    request.Settles key before after value :=
  ⟨h.value, h.own, h.others⟩

theorem MapAct.LeavesEntries.contents {act : MapAct K V} (h : act.LeavesEntries)
    (state : MapState K V) (key : K) :
    (act.apply state).store.contents key = state.store.contents key :=
  congrArg (Option.map _) (h.lookup state key)

theorem Store.settles_read (store : Store K V) (key : K) (now : Instant) :
    (MapRequest.get key).Settles key store (store.read key now).2 (store.read key now).1 where
  value := by
    simp [read, contents, Option.map_map, Function.comp_def]
  own := by
    simp only [contents, lookup_read, if_pos, MapRequest.leaves]
    cases store.lookup key <;> rfl
  others other hne := by
    simp [contents, lookup_read, hne]

theorem Store.settles_insert (store : Store K V) (entry : Entry K V) (now : Instant) :
    (MapRequest.put entry.key entry.value entry.timeout).Settles entry.key store
      (store.insert (entry.touch now)).2 (store.insert (entry.touch now)).1 where
  value := by
    simp [insert, contents, Option.map_map, Function.comp_def]
  own := by
    simp [contents, lookup_insert, MapRequest.leaves]
  others other hne := by
    simp [contents, lookup_insert, hne]

theorem Store.settles_insertIfAbsent (store : Store K V) (entry : Entry K V) (now : Instant) :
    (MapRequest.putIfAbsent entry.key entry.value entry.timeout).Settles entry.key store
      (store.insertIfAbsent (entry.touch now)).2 (store.insertIfAbsent (entry.touch now)).1 where
  value := by
    simp only [insertIfAbsent, contents, Entry.touch_key]
    cases store.lookup entry.key <;> rfl
  own := by
    simp only [contents, lookup_insertIfAbsent, MapRequest.leaves, Entry.touch_key, if_pos]
    cases store.lookup entry.key <;> rfl
  others other hne := by
    simp [contents, lookup_insertIfAbsent, hne]

theorem Store.settles_remove (store : Store K V) (key : K) :
    (MapRequest.remove key).Settles key store (store.remove key).2 (store.remove key).1 where
  value := by
    simp [remove, contents, Option.map_map, Function.comp_def]
  own := by
    simp [contents, lookup_remove, MapRequest.leaves]
  others other hne := by
    simp [contents, lookup_remove, hne]

/-- The act for which a request is made settles it. -/
theorem MapRequest.Decides.settles {request : MapRequest K V} {reserved : Option Nat}
    {act : MapAct K V} (h : request.Decides reserved act) {key : K}
    (hkey : request.key? = some key) (enumeration : Enumeration K V) (state : MapState K V) :
    ∃ value,
      (Duty.due request reserved).after act (act.answer enumeration state) =
        .answered request value ∧
      request.Settles key state.store (act.apply state).store value := by
  cases request with
  -- what the single deciding act does is what the request is to settle
  | get asked =>
      obtain ⟨now, rfl⟩ := h
      obtain rfl := Option.some.inj hkey
      exact ⟨_, rfl, Store.settles_read ..⟩
  | put asked value timeout =>
      obtain ⟨seq, now, -, rfl⟩ := h
      obtain rfl := Option.some.inj hkey
      exact ⟨_, rfl, state.store.settles_insert ⟨asked, value, timeout, seq, none⟩ now⟩
  | putIfAbsent asked value timeout =>
      obtain ⟨seq, now, -, rfl⟩ := h
      obtain rfl := Option.some.inj hkey
      exact ⟨_, rfl, state.store.settles_insertIfAbsent ⟨asked, value, timeout, seq, none⟩ now⟩
  | remove asked =>
      obtain rfl : act = .remove asked := h
      obtain rfl := Option.some.inj hkey
      exact ⟨_, rfl, Store.settles_remove ..⟩
  | size | isEmpty | purge | start | stop | phase | name | interval | isSchedulerShutdown
  | describe | addHandle | awaitSize => exact h.elim

theorem Store.contents_removeIfSame_of_ne (store : Store K V) {key other : K} (hne : other ≠ key)
    (seq : Nat) : (store.removeIfSame key seq).2.contents other = store.contents other := by
  rw [contents, contents, lookup_removeIfSame]
  cases store.lookup other <;> simp [hne]

end Contents

/-! ## Going alone -/

section Alone

variable [DecidableEq K] (plan : Plan n S K V) (depth : Nat) (map : Fin n)

/-- What requests come to if they are made one after the other with nobody else at work, and the
deployment that they leave. -/
def Plan.goAlone : List (MapRequest K V) → Deployment n S K V →
    List (List (Outcome (Answer V))) × Deployment n S K V
  | [], deployment => ([], deployment)
  | request :: rest, deployment =>
      let (outcomes, deployment) := (plan.access depth map request).run plan deployment
      let (others, deployment) := goAlone rest deployment
      (outcomes :: others, deployment)

theorem Plan.goAlone_append (earlier later : List (MapRequest K V))
    (deployment : Deployment n S K V) :
    plan.goAlone depth map (earlier ++ later) deployment =
      ((plan.goAlone depth map earlier deployment).1 ++
          (plan.goAlone depth map later (plan.goAlone depth map earlier deployment).2).1,
        (plan.goAlone depth map later (plan.goAlone depth map earlier deployment).2).2) := by
  induction earlier generalizing deployment with
  | nil => rfl
  | cons request rest ih => simp [Plan.goAlone, ih]

variable {plan depth map} in
/-- With nobody else at work, a request comes to what the operation on the entry comes to. -/
theorem Plan.settles_of_run {request : MapRequest K V} {key : K}
    {operation : Operation n K V (Option V)} {deployment : Deployment n S K V}
    (hserve : Operation.serveMap (plan.settings map) map request =
      operation.bind fun value => .done (.ok (.value value)))
    (h : request.Settles key (deployment.state map).store
      ((plan.run depth operation deployment).2.state map).store
      (plan.run depth operation deployment).1) :
    ∃ value, ((plan.access depth map request).run plan deployment).1 = [.ok (.value value)] ∧
      request.Settles key (deployment.state map).store
        (((plan.access depth map request).run plan deployment).2.state map).store value := by
  have hrun := plan.attains_unfoldOperation (plan.attains_scripts depth)
    (Operation.serveMap (plan.settings map) map request) (fun outcome => .done [outcome]) deployment
  -- an access that is unfolded comes to the same as the operation that is run at once
  have hbind := Operation.run_bind_done plan depth deployment operation
    fun value => (.ok (.value value) : Outcome (Answer V))
  rw [← hserve] at hbind
  change (plan.access depth map request).run plan deployment =
    ([(plan.run depth _ deployment).1], (plan.run depth _ deployment).2) at hrun
  rw [hrun, hbind]
  exact ⟨_, rfl, h⟩

/-- With nobody else at work, a request for a single entry is settled. -/
theorem Plan.settles_access {request : MapRequest K V} {key : K}
    (hkey : request.key? = some key) (deployment : Deployment n S K V) :
    ∃ value, ((plan.access depth map request).run plan deployment).1 = [.ok (.value value)] ∧
      request.Settles key (deployment.state map).store
        (((plan.access depth map request).run plan deployment).2.state map).store value := by
  -- alone, too, each of the four settles what it is asked
  cases request with
  | get asked =>
      obtain rfl := Option.some.inj hkey
      refine settles_of_run rfl ?_
      obtain ⟨hvalue, hstore⟩ := Operation.run_get plan depth map asked deployment
      rw [hvalue, hstore]
      exact Store.settles_read ..
  | put asked value timeout =>
      obtain rfl := Option.some.inj hkey
      refine settles_of_run rfl ?_
      obtain ⟨hvalue, hstore⟩ := Operation.run_put plan depth map asked value timeout deployment
      rw [hvalue, hstore]
      exact .of_reserve (Store.settles_insert _
        ⟨asked, value, timeout, (deployment.state map).store.next, none⟩ _)
  | putIfAbsent asked value timeout =>
      obtain rfl := Option.some.inj hkey
      refine settles_of_run rfl ?_
      obtain ⟨hvalue, hstore⟩ :=
        Operation.run_putIfAbsent plan depth map asked value timeout deployment
      rw [hvalue, hstore]
      exact .of_reserve (Store.settles_insertIfAbsent _
        ⟨asked, value, timeout, (deployment.state map).store.next, none⟩ _)
  | remove asked =>
      obtain rfl := Option.some.inj hkey
      refine settles_of_run rfl ?_
      obtain ⟨hvalue, hstore⟩ := Operation.run_remove plan depth map asked deployment
      rw [hvalue, hstore]
      exact Store.settles_remove ..
  | size | isEmpty | purge | start | stop | phase | name | interval | isSchedulerShutdown
  | describe | addHandle | awaitSize => cases hkey

end Alone

/-! ## What a thread has been about -/

/-- The requests for single entries that a thread has set out with. -/
def asked (thread : ThreadId) (history : List (Happening n S K V)) : List (MapRequest K V) :=
  (departures history).filterMap fun (other, errand) =>
    if other = thread then errand.request? else none

/-- The requests for single entries that a thread is back from, and what they have come to. -/
def served (thread : ThreadId) (history : List (Happening n S K V)) :
    List (MapRequest K V × List (Outcome (Answer V))) :=
  (arrivals history).filterMap fun (other, errand, outcomes) =>
    if other = thread then errand.request?.map (·, outcomes) else none

/-- What scans of a map have listed. -/
def listings (map : Fin n) (history : List (Happening n S K V)) : List (List (Entry K V)) :=
  history.filterMap fun
    | .does _ (.act (.map other (.scan _))) found => if other = map then some found else none
    | _ => none

section

variable (thread : ThreadId) (map : Fin n) (earlier later : List (Happening n S K V))

@[simp] theorem asked_append :
    asked thread (earlier ++ later) = asked thread earlier ++ asked thread later := by
  simp [asked]

@[simp] theorem served_append :
    served thread (earlier ++ later) = served thread earlier ++ served thread later := by
  simp [served]

@[simp] theorem listings_append :
    listings map (earlier ++ later) = listings map earlier ++ listings map later :=
  List.filterMap_append

end

/-- The request that a thread is about, and what it is going to come to, if that is settled. -/
def Duty.settled? : Duty K V → Option (MapRequest K V × List (Outcome (Answer V)))
  | answered request value => some (request, [.ok (.value value)])
  | due .. | passing _ => none

section Tenants

variable [DecidableEq K] (plan : Plan n S K V) (depth : Nat) (map : Fin n)
  (start : Deployment n S K V) (owner : K → Option ThreadId) (thread : ThreadId)

/-- Whether requests have come to what they come to alone, and what is in a store under the keys of
their thread is what they leave alone. -/
structure AsAlone (settled : List (MapRequest K V × List (Outcome (Answer V))))
    (store : Store K V) : Prop where
  outcomes : settled.map Prod.snd = (plan.goAlone depth map (settled.map Prod.fst) start).1
  contents : ∀ key, owner key = some thread → store.contents key =
    (((plan.goAlone depth map (settled.map Prod.fst) start).2).state map).store.contents key

/-- What is known of a thread that keeps to its own keys, given its duty if it is about an
errand. -/
structure Tenant (history : List (Happening n S K V)) (traffic : Traffic n S K V)
    (duty : Option (Duty K V)) : Prop where
  hasDuty : traffic.HasDuty plan map thread duty
  asked : asked thread history =
    (served thread history).map Prod.fst ++ (duty.bind Duty.request?).toList
  alone : AsAlone plan depth map start owner thread
    (served thread history ++ (duty.bind Duty.settled?).toList)
    (traffic.stage.deployment.state map).store
  /-- The key of its request is its own. -/
  owns : ∀ request, duty.bind Duty.request? = some request →
    ∃ key, request.key? = some key ∧ owner key = some thread
  /-- What it has listed is nobody's own. -/
  spares : ∀ found, duty = some (.passing found) → ∀ entry ∈ found, owner entry.key = none

variable {plan depth map start owner thread}

theorem AsAlone.of_contents {settled : List (MapRequest K V × List (Outcome (Answer V)))}
    {store later : Store K V} (h : AsAlone plan depth map start owner thread settled store)
    (hcontents : ∀ key, owner key = some thread → later.contents key = store.contents key) :
    AsAlone plan depth map start owner thread settled later :=
  ⟨h.outcomes, fun key hkey => (hcontents key hkey).trans (h.contents key hkey)⟩

/-- A request that is settled comes to what it comes to alone. -/
theorem AsAlone.settle {settled : List (MapRequest K V × List (Outcome (Answer V)))}
    {store later : Store K V} (h : AsAlone plan depth map start owner thread settled store)
    {request : MapRequest K V} {key : K} (hkey : request.key? = some key)
    (howner : owner key = some thread) {value : Option V}
    (hsettles : request.Settles key store later value) :
    AsAlone plan depth map start owner thread (settled ++ [(request, [.ok (.value value)])])
      later := by
  obtain ⟨alone, houtcomes, halone⟩ := plan.settles_access depth map hkey
    (plan.goAlone depth map (settled.map Prod.fst) start).2
  have hsame := h.contents key howner
  -- with the same contents of its keys, what is answered depends on the request only
  have hvalue : value = alone := by rw [hsettles.value, halone.value, hsame]
  constructor
  · simp [Plan.goAlone_append, Plan.goAlone, houtcomes, h.outcomes, hvalue]
  · intro other hother
    simp only [List.map_append, Plan.goAlone_append, Plan.goAlone, List.map_cons, List.map_nil]
    by_cases heq : other = key
    · subst heq
      rw [hsettles.own, halone.own, hsame]
    · rw [hsettles.others other heq, halone.others other heq, h.contents other hother]

/-- What a thread does not do itself makes no difference to it, as long as that leaves alone what is
under its keys. -/
theorem Tenant.undisturbed {history happened : List (Happening n S K V)}
    {traffic later : Traffic n S K V} {duty : Option (Duty K V)}
    (h : Tenant plan depth map start owner thread history traffic duty)
    (hcourse : later.courses thread = traffic.courses thread)
    (hasked : ExpiringMap.asked thread happened = [])
    (hserved : served thread happened = [])
    (hcontents : ∀ key, owner key = some thread →
      (later.stage.deployment.state map).store.contents key =
        (traffic.stage.deployment.state map).store.contents key) :
    Tenant plan depth map start owner thread (history ++ happened) later duty where
  hasDuty := h.hasDuty.congr hcourse
  asked := by simpa [hasked, hserved] using h.asked
  alone := by
    rw [served_append, hserved, List.append_nil]
    exact h.alone.of_contents hcontents
  owns := h.owns
  spares := h.spares

/-- A thread may set out on a pass, or with a request for an entry under a key of its own. -/
theorem Tenant.setsOut {history : List (Happening n S K V)} {traffic : Traffic n S K V}
    (h : Tenant plan depth map start owner thread history traffic none)
    (hhooks : plan.HooksKeepOff) {errand : Errand K V}
    (herrand : errand.IsPass ∨ ∃ key, errand.key? = some key ∧ owner key = some thread) :
    Tenant plan depth map start owner thread (history ++ [.setsOut thread errand])
      (traffic.setCourse thread (some (errand, plan.errand depth map errand)))
      (some errand.duty) := by
  -- an errand is either a request on an own key, which is due, or a pass, which has found nothing
  have hduty : (∃ request key, errand.request? = some request ∧ request.key? = some key ∧
        owner key = some thread ∧ errand.duty = .due request none) ∨
      errand.request? = none ∧ errand.duty = .passing [] := by
    rcases herrand with hpass | ⟨key, hkey, howner⟩
    · exact .inr ⟨hpass.request?, by rw [Errand.duty, hpass.request?]⟩
    · obtain ⟨request, hrequest, hkey⟩ := Option.bind_eq_some_iff.mp hkey
      exact .inl ⟨request, key, hrequest, hkey, howner, by rw [Errand.duty, hrequest]⟩
  have hsettled : errand.duty.settled? = none := by
    rcases hduty with ⟨_, _, -, -, -, heq⟩ | ⟨-, heq⟩ <;> rw [heq] <;> rfl
  constructor
  case hasDuty =>
    refine .setsOut ?_
    rcases herrand with hpass | ⟨key, hkey, -⟩
    · exact heeds_pass depth map hhooks hpass
    · obtain ⟨request, hrequest, -⟩ := Option.bind_eq_some_iff.mp hkey
      exact heeds_entry plan depth map hrequest
  case asked =>
    have hasked : ExpiringMap.asked thread [.setsOut (n := n) (S := S) thread errand] =
        errand.request?.toList := by
      simp only [ExpiringMap.asked, departures_setsOut, List.filterMap_cons, if_pos]
      cases errand.request? <;> rfl
    simp [hasked, h.asked, served]
  case alone =>
    simpa [hsettled, served] using h.alone
  case owns =>
    intro request hrequest
    -- what is due is the request that has been asked for, and that is on an own key
    rw [Option.bind_some, Errand.request?_duty] at hrequest
    rcases hduty with ⟨asked, key, hasked, hkey, howner, -⟩ | ⟨hnone, -⟩
    · obtain rfl := Option.some.inj (hasked.symm.trans hrequest)
      exact ⟨key, hkey, howner⟩
    · cases hnone.symm.trans hrequest
  case spares =>
    intro found hfound entry hentry
    rcases hduty with ⟨_, _, -, -, -, heq⟩ | ⟨-, heq⟩
    · -- a pass that sets out has not listed anything
      cases (Option.some.inj hfound).symm.trans heq
    · obtain rfl := Duty.passing.inj ((Option.some.inj hfound).symm.trans heq)
      cases hentry

/-- A thread that is back has been served. -/
theorem Tenant.returns {history : List (Happening n S K V)} {traffic : Traffic n S K V}
    {duty : Duty K V} (h : Tenant plan depth map start owner thread history traffic (some duty))
    {errand : Errand K V} {outcomes : List (Outcome (Answer V))}
    (hcourse : traffic.courses thread = some (errand, .done outcomes)) :
    Tenant plan depth map start owner thread (history ++ [.returns thread errand outcomes])
      (traffic.setCourse thread none) none := by
  obtain ⟨hrequest, hheeds⟩ := h.hasDuty.of_course hcourse
  -- what it is back with is what has been settled
  have hserved : served thread [.returns (n := n) (S := S) thread errand outcomes] =
      duty.settled?.toList := by
    have hends := hheeds.of_done
    simp only [served, arrivals_returns, List.filterMap_cons, if_pos, ← hrequest]
    cases duty with
    | due => exact hends.elim
    | answered request value => exact congrArg (fun outcomes => [(request, outcomes)]) hends
    | passing found => rfl
  have hsettled : duty.settled?.toList.map Prod.fst = duty.request?.toList := by
    cases duty with
    | due => exact (hheeds.of_done).elim
    | answered | passing => rfl
  constructor
  case hasDuty => exact traffic.courses_setCourse_self thread none
  case asked =>
    have hasked :
        ExpiringMap.asked thread [.returns (n := n) (S := S) thread errand outcomes] = [] :=
      rfl
    simp [h.asked, hserved, hsettled, hasked]
  case alone => simpa [hserved] using h.alone
  case owns => exact nofun
  case spares => exact nofun

/-- What a deed comes to that a duty permits: it leaves alone what is under anybody's own keys and
nothing more is settled, or it settles the request that the thread is about. -/
inductive Duty.Advances (owner : K → Option ThreadId) (thread : ThreadId) (duty later : Duty K V)
    (before after : Store K V) : Prop
  | leaves : (∀ key, owner key ≠ none → after.contents key = before.contents key) →
      later.settled? = duty.settled? → Advances owner thread duty later before after
  | settles {request : MapRequest K V} {key : K} {value : Option V} : request.key? = some key →
      owner key = some thread → duty.settled? = none → later = .answered request value →
      request.Settles key before after value → Advances owner thread duty later before after

theorem Duty.Permits.advances {duty : Duty K V} {act : MapAct K V} (h : duty.Permits act)
    (howns : ∀ request, duty.request? = some request →
      ∃ key, request.key? = some key ∧ owner key = some thread)
    (hspares : ∀ found, duty = .passing found → ∀ entry ∈ found, owner entry.key = none)
    (enumeration : Enumeration K V) (state : MapState K V) :
    Advances owner thread duty (duty.after act (act.answer enumeration state)) state.store
      (act.apply state).store := by
  have hleaves : act.LeavesEntries →
      Advances owner thread duty (duty.after act (act.answer enumeration state)) state.store
        (act.apply state).store := by
    refine fun hleaves => .leaves (fun key _ => hleaves.contents state key) ?_
    cases duty <;> cases act <;> first | exact hleaves.elim | rfl
  cases duty with
  | due request reserved =>
      refine h.elim hleaves fun hdecides => ?_
      obtain ⟨key, hkey, howner⟩ := howns request rfl
      obtain ⟨value, hafter, hsettles⟩ := hdecides.settles hkey enumeration state
      exact .settles hkey howner rfl hafter hsettles
  | answered request value => exact hleaves h
  | passing found =>
      rcases h with h | ⟨entry, hentry, rfl⟩
      · exact hleaves h
      · -- a pass takes out only what it has listed, and nobody owns a key of that
        refine .leaves (fun key hkey => ?_) rfl
        have hne : key ≠ entry.key := fun heq => hkey (heq ▸ hspares found rfl entry hentry)
        exact state.store.contents_removeIfSame_of_ne hne entry.seq

omit [DecidableEq K] in
/-- What a pass has listed it has listed in its latest scan. -/
theorem Duty.of_after_eq_passing {duty : Duty K V} {act : MapAct K V} {answer : act.Answer}
    {found : List (Entry K V)} (h : duty.after act answer = .passing found) :
    duty = .passing found ∨
      found ∈ listings map [.does thread (.act (.map map act) : Deed n S K V) answer] := by
  cases duty with
  | due | answered => cases act <;> cases h
  | passing listed =>
      cases act with
      | scan now =>
          obtain rfl := Duty.passing.inj h
          exact .inr (by simp [listings])
      | _ => exact .inl h

/-- A deed of a thread advances its duty, which disturbs nobody who has keys of his own. -/
theorem Tenant.advances {history : List (Happening n S K V)} {traffic : Traffic n S K V}
    {duty : Duty K V} (h : Tenant plan depth map start owner thread history traffic (some duty))
    {deed : Deed n S K V} (hpermits : (Duty.protocol map).PermitsDeed duty deed)
    (hspared : ∀ found ∈ listings map
        [.does thread deed (traffic.stage.perform plan thread deed).1],
      ∀ entry ∈ found, owner entry.key = none) :
    let later := (Duty.protocol map).afterDeed duty deed
      (traffic.stage.perform plan thread deed).1
    Duty.Advances owner thread duty later (traffic.stage.deployment.state map).store
        ((traffic.stage.perform plan thread deed).2.deployment.state map).store ∧
      ∀ found, later = .passing found → ∀ entry ∈ found, owner entry.key = none := by
  intro later
  have hspares := fun found hfound => h.spares found (congrArg some hfound)
  by_cases hact : ∃ act, deed = .act (.map map act)
  · obtain ⟨act, rfl⟩ := hact
    have hlater : later = duty.after act (act.answer (plan.enumeration map)
        (traffic.stage.deployment.state map)) := Duty.afterDeed_map ..
    have hstate : ((traffic.stage.perform plan thread (.act (.map map act))).2.deployment.state
        map) = act.apply (traffic.stage.deployment.state map) := by
      simp [Stage.perform, Plan.perform, Deployment.perform]
    rw [hlater, hstate]
    refine ⟨(Duty.permits_of_permitsDeed hpermits).advances h.owns hspares _ _, ?_⟩
    intro found hfound
    -- the pass has its list already, or has just been given it
    rcases Duty.of_after_eq_passing hfound with hsame | hlisted
    · exact hspares found hsame
    · exact hspared found hlisted
  · -- anything else leaves the store and the duty alone
    have hne : ∀ act, deed ≠ .act (.map map act) := fun act heq => hact ⟨act, heq⟩
    have hstate : ((traffic.stage.perform plan thread deed).2.deployment.state map) =
        traffic.stage.deployment.state map := plan.state_perform hne _
    have hlater : later = duty := Duty.afterDeed_of_ne hne ..
    rw [hlater, hstate]
    exact ⟨.leaves (fun _ _ => rfl) rfl, hspares⟩

/-- What a thread does disturbs nobody who has keys of his own. -/
theorem Tenant.does {history : List (Happening n S K V)} {traffic : Traffic n S K V}
    {duty : Duty K V} (h : Tenant plan depth map start owner thread history traffic (some duty))
    {errand : Errand K V} {deed : Deed n S K V} {next : deed.Answer → Routine n S K V}
    (hcourse : traffic.courses thread = some (errand, .step deed next))
    (hspared : ∀ found ∈ listings map
        [.does thread deed (traffic.stage.perform plan thread deed).1],
      ∀ entry ∈ found, owner entry.key = none) :
    (∃ duty, Tenant plan depth map start owner thread
      (history ++ [.does thread deed (traffic.stage.perform plan thread deed).1])
      ((traffic.withStage (traffic.stage.perform plan thread deed).2).setCourse thread
        (some (errand, next (traffic.stage.perform plan thread deed).1))) (some duty)) ∧
    ∀ key other, owner key = some other → other ≠ thread →
      ((traffic.stage.perform plan thread deed).2.deployment.state map).store.contents key =
        (traffic.stage.deployment.state map).store.contents key := by
  obtain ⟨hpermits, hlater⟩ := h.hasDuty.does hcourse
  obtain ⟨hadvances, hspares⟩ := h.advances hpermits hspared
  -- what is done next is told by what the duty comes to, and only that matters
  generalize hafter : (Duty.protocol map).afterDeed duty deed _ = later at hlater hadvances hspares
  have hrequest : later.request? = duty.request? := by rw [← hafter, Duty.request?_afterDeed]
  refine ⟨⟨later, hlater, ?_, ?_, ?_, ?_⟩, ?_⟩
  · simpa [ExpiringMap.asked, served, hrequest] using h.asked
  · have halone := h.alone
    simp only [Traffic.stage_setCourse, Traffic.stage_withStage, served_append]
    cases hadvances with
    | leaves hcontents hsettled =>
        simpa [served, hsettled] using halone.of_contents fun key hkey =>
          hcontents key (by simp [hkey])
    | settles hkey howner hnone hanswered hsettles =>
        subst hanswered
        simp only [Option.bind_some, hnone, Option.toList_none, List.append_nil] at halone
        simpa [served, Duty.settled?] using halone.settle hkey howner hsettles
  · rw [Option.bind_some, hrequest]
    exact h.owns
  · exact fun found hfound => hspares found (Option.some.inj hfound)
  · intro key other hother hne
    cases hadvances with
    | leaves hcontents _ => exact hcontents key (by simp [hother])
    | @settles _ own _ _ howner _ _ hsettles =>
        -- the key of the request is the thread's own, so it belongs to nobody else
        refine hsettles.others key fun heq => hne ?_
        exact Option.some.inj (hother.symm.trans (heq ▸ howner))

/-! ## Nobody is disturbed -/

omit [DecidableEq K] in
theorem tenant_initial [DecidableEq K] :
    Tenant plan depth map start owner thread [] (.initial start) none where
  hasDuty := rfl
  asked := rfl
  alone := ⟨rfl, fun _ _ => rfl⟩
  owns := nofun
  spares := nofun

/-- Whatever happens next, every thread that keeps to its own keys is left alone. -/
theorem tenants_move {history happened : List (Happening n S K V)} {traffic last : Traffic n S K V}
    {admits : Admission n S K V} (hhooks : plan.HooksKeepOff)
    (htenants : ∀ thread, ∃ duty, Tenant plan depth map start owner thread history traffic duty)
    (hmove : plan.Moves depth map admits traffic happened last)
    (hkeys : ∀ thread errand, (thread, errand) ∈ departures happened →
      errand.IsPass ∨ ∃ key, errand.key? = some key ∧ owner key = some thread)
    (hspared : ∀ found ∈ listings map happened, ∀ entry ∈ found, owner entry.key = none)
    (thread : ThreadId) :
    ∃ duty, Tenant plan depth map start owner thread (history ++ happened) last duty := by
  obtain ⟨duty, htenant⟩ := htenants thread
  cases hmove with
  | setsOut mover errand hcourse =>
      by_cases heq : thread = mover
      · subst heq
        obtain rfl := htenant.hasDuty.eq_none hcourse
        exact ⟨_, htenant.setsOut hhooks (hkeys thread errand (by simp))⟩
      · exact ⟨duty, htenant.undisturbed (traffic.courses_setCourse_of_ne _ heq)
          (by simp [asked, Ne.symm heq]) (by simp [served]) fun _ _ => rfl⟩
  | @does errand deed next mover hcourse _ =>
      by_cases heq : thread = mover
      · subst heq
        obtain ⟨duty, rfl⟩ := htenant.hasDuty.exists_eq_some hcourse
        obtain ⟨⟨later, hlater⟩, -⟩ := htenant.does hcourse hspared
        exact ⟨some later, hlater⟩
      · -- somebody else has done something, who may have keys of his own
        obtain ⟨other, hother⟩ := htenants mover
        obtain ⟨other, rfl⟩ := hother.hasDuty.exists_eq_some hcourse
        obtain ⟨-, hothers⟩ := hother.does hcourse hspared
        exact ⟨duty, htenant.undisturbed (Traffic.courses_setCourse_of_ne _ _ heq)
          (by simp [asked]) (by simp [served]) fun key hkey => hothers key thread hkey heq⟩
  | @returns errand outcomes mover hcourse =>
      by_cases heq : thread = mover
      · subst heq
        obtain ⟨duty, rfl⟩ := htenant.hasDuty.exists_eq_some hcourse
        exact ⟨none, htenant.returns hcourse⟩
      · exact ⟨duty, htenant.undisturbed (traffic.courses_setCourse_of_ne _ heq)
          (by simp [asked]) (by simp [served, Ne.symm heq]) fun _ _ => rfl⟩
  | clockMoves act =>
      exact ⟨duty, htenant.undisturbed rfl rfl rfl fun _ _ => rfl⟩

theorem exists_tenant {history : List (Happening n S K V)} {last : Traffic n S K V}
    {admits : Admission n S K V} (hhooks : plan.HooksKeepOff)
    (hinterleaves : plan.Interleaves depth map admits (.initial start) history last)
    (hkeys : ∀ thread errand, (thread, errand) ∈ departures history →
      errand.IsPass ∨ ∃ key, errand.key? = some key ∧ owner key = some thread)
    (hspared : ∀ found ∈ listings map history, ∀ entry ∈ found, owner entry.key = none)
    (thread : ThreadId) : ∃ duty, Tenant plan depth map start owner thread history last duty := by
  induction hinterleaves generalizing thread with
  | start => exact ⟨none, tenant_initial⟩
  | @move earlier happened traffic last _ hmove ih =>
      -- what is asked of a whole history is asked of each part of it
      simp only [departures_append, listings_append, List.mem_append] at hkeys hspared
      have htenants := ih (fun thread errand hmem => hkeys thread errand (.inl hmem))
        fun found hmem => hspared found (.inl hmem)
      exact tenants_move hhooks htenants hmove
        (fun thread errand hmem => hkeys thread errand (.inr hmem))
        (fun found hmem => hspared found (.inr hmem)) thread

theorem length_goAlone (requests : List (MapRequest K V)) (deployment : Deployment n S K V) :
    (plan.goAlone depth map requests deployment).1.length = requests.length := by
  induction requests generalizing deployment with
  | nil => rfl
  | cons request rest ih => simp [Plan.goAlone, ih]

theorem AsAlone.outcomes_of_append
    {settled more : List (MapRequest K V × List (Outcome (Answer V)))} {store : Store K V}
    (h : AsAlone plan depth map start owner thread (settled ++ more) store) :
    settled.map Prod.snd = (plan.goAlone depth map (settled.map Prod.fst) start).1 := by
  have houtcomes := h.outcomes
  rw [List.map_append, List.map_append, Plan.goAlone_append] at houtcomes
  exact List.append_inj_left houtcomes (by simp [length_goAlone])

variable (plan depth map start owner thread) in
/-- Whether a thread has been left alone in the course of an interleaving. -/
structure Undisturbed (history : List (Happening n S K V)) (last : Traffic n S K V) : Prop where
  /-- What it has been given so far is what it is given when it makes its requests alone. -/
  outcomes : (served thread history).map Prod.snd =
    (plan.goAlone depth map ((served thread history).map Prod.fst) start).1
  /-- When it is at rest, it is back from all requests that it has made. -/
  asked : last.courses thread = none →
    (served thread history).map Prod.fst = asked thread history
  /-- What is found then under its keys is what it leaves there when it makes them alone. -/
  contents : last.courses thread = none → ∀ key, owner key = some thread →
    (last.stage.deployment.state map).store.contents key =
      ((plan.goAlone depth map (ExpiringMap.asked thread history) start).2.state
        map).store.contents key

/-- Threads that read and write entries under keys of their own, while passes are made that find
none of these expired, leave each other alone: whatever comes in between, and whichever lock they
go by, each of them is given what it is given alone, and leaves what it leaves alone. -/
theorem tenants_undisturbed {history : List (Happening n S K V)} {last : Traffic n S K V}
    {admits : Admission n S K V} (hhooks : plan.HooksKeepOff)
    (hinterleaves : plan.Interleaves depth map admits (.initial start) history last)
    (hkeys : ∀ thread errand, (thread, errand) ∈ departures history →
      errand.IsPass ∨ ∃ key, errand.key? = some key ∧ owner key = some thread)
    (hspared : ∀ found ∈ listings map history, ∀ entry ∈ found, owner entry.key = none)
    (thread : ThreadId) : Undisturbed plan depth map start owner thread history last := by
  obtain ⟨duty, htenant⟩ := exists_tenant hhooks hinterleaves hkeys hspared thread
  -- a thread that is not under way has no duty left, so it has been served what it asked for
  have hrest : last.courses thread = none → duty = none := htenant.hasDuty.eq_none
  have hasked : last.courses thread = none →
      (served thread history).map Prod.fst = asked thread history := by
    intro hcourse
    simp [htenant.asked, hrest hcourse]
  refine ⟨htenant.alone.outcomes_of_append, hasked, fun hcourse key hkey => ?_⟩
  have halone := htenant.alone
  rw [hrest hcourse] at halone
  rw [← hasked hcourse]
  simpa using halone.contents key hkey

end Tenants

/-- The deployment of one map with an entry that has expired. -/
def lapsed : Deployment 1 Unit Nat Nat :=
  let map : Fin 1 := ⟨0, Nat.one_pos⟩
  let filled := (Plan.agreeing.run 0 (Plan.agreeing.operation map (.map (.put 7 70 .zero)))
    (.fresh (.byHand false false) false ())).2
  (Plan.agreeing.run 0 (Plan.agreeing.operation map (.advance 1)) filled).2

/-- Two threads make two requests each while a third one makes a pass. -/
def twoAndAPass : List (Cue Nat Nat) :=
  let rounds : List (Cue Nat Nat) :=
    (List.replicate 6 [.goesOn 0, .goesOn 2, .goesOn 1, .goesOn 2]).flatten
  [[.setsOut 0 (.ask (.put 1 10 .second)), .setsOut 1 (.ask (.putIfAbsent 2 20 .second)),
    .setsOut 2 (.ask .purge)], rounds,
    [.setsOut 0 (.ask (.get 1)), .setsOut 1 (.ask (.remove 2))], rounds].flatten

/-- The thread to which a key belongs in this. -/
def ownerOf : Nat → Option ThreadId
  | 1 => some 0
  | 2 => some 1
  | _ => none

set_option maxRecDepth 2000 in
/-- The pass takes out the entry that has expired, and the second thread loses nothing by that. -/
theorem tenants_undisturbed_twoAndAPass :
    let reached := Plan.agreeing.takeTurns 0 0 (fun _ _ _ => True) (.initial lapsed) twoAndAPass
    Undisturbed Plan.agreeing 0 0 lapsed ownerOf 0 reached.1 reached.2 ∧
      Undisturbed Plan.agreeing 0 0 lapsed ownerOf 1 reached.1 reached.2 ∧
      (reached.2.courses 0).isNone ∧ (reached.2.courses 1).isNone := by
  intro reached
  -- the hypotheses are found true of the history, which is evaluated
  have hinterleaves :=
    Plan.agreeing.interleaves_takeTurns 0 0 (fun _ _ _ => True) (.initial lapsed) twoAndAPass
  have hdepartures : departures reached.1 =
      [(0, .ask (.put 1 10 .second)), (1, .ask (.putIfAbsent 2 20 .second)), (2, .ask .purge),
        (0, .ask (.get 1)), (1, .ask (.remove 2))] := rfl
  have hlistings : listings 0 reached.1 = [[⟨7, 70, .zero, 0, some ⟨0, by decide⟩⟩]] := rfl
  have hkeys : ∀ thread errand, (thread, errand) ∈ departures reached.1 →
      errand.IsPass ∨ ∃ key, errand.key? = some key ∧ ownerOf key = some thread := by
    intro thread errand hmem
    rw [hdepartures] at hmem
    simp only [List.mem_cons, Prod.mk.injEq, List.not_mem_nil, or_false] at hmem
    rcases hmem with ⟨rfl, rfl⟩ | ⟨rfl, rfl⟩ | ⟨rfl, rfl⟩ | ⟨rfl, rfl⟩ | ⟨rfl, rfl⟩
    · exact .inr ⟨1, rfl, rfl⟩
    · exact .inr ⟨2, rfl, rfl⟩
    · exact .inl rfl
    · exact .inr ⟨1, rfl, rfl⟩
    · exact .inr ⟨2, rfl, rfl⟩
  have hspared : ∀ found ∈ listings 0 reached.1, ∀ entry ∈ found, ownerOf entry.key = none := by
    rw [hlistings]
    simp [ownerOf]
  exact ⟨tenants_undisturbed Plan.hooksKeepOff_agreeing hinterleaves hkeys hspared 0,
    tenants_undisturbed Plan.hooksKeepOff_agreeing hinterleaves hkeys hspared 1, rfl, rfl⟩

end ExpiringMap
