import ExpiringMap.Proofs.Traffic.Duties

/-!
# Races for one key

Any number of threads ask for the value of a key, and put values of their own under it if it is
absent.  They take numbers and read the clock before the one act on the store that tells them apart,
so that numbers, times and these acts may come in different orders.  Seen from the key, the moves of
all threads are those of a small machine (`Racing.Move`): its state is the entry that is found under
the key, and for each thread what its request has come to (`Racing.move`).
-/

namespace ExpiringMap

variable {n : Nat} {S K V : Type}

section

variable [DecidableEq K] (map : Fin n) (key : K)

/-- The entries that have been put in under a key, because it was absent. -/
def insertions (history : List (Happening n S K V)) : List (Entry K V) :=
  history.filterMap fun
    | .does _ (.act (.map other (.insertIfAbsent entry _))) none =>
        if other = map ∧ entry.key = key then some entry else none
    | _ => none

/-- When the countdown of the entry of a key was started, one time after the other: by whoever put
it in, because the key was absent, and by whoever read it. -/
def restarts (history : List (Happening n S K V)) : List Instant :=
  history.filterMap fun
    | .does _ (.act (.map other (.insertIfAbsent entry now))) none =>
        if other = map ∧ entry.key = key then some now else none
    | .does _ (.act (.map other (.read asked now))) (some _) =>
        if other = map ∧ asked = key then some now else none
    | _ => none

section

variable (earlier later : List (Happening n S K V))

@[simp] theorem insertions_append :
    insertions map key (earlier ++ later) =
      insertions map key earlier ++ insertions map key later :=
  List.filterMap_append

@[simp] theorem restarts_append :
    restarts map key (earlier ++ later) = restarts map key earlier ++ restarts map key later :=
  List.filterMap_append

end

variable {map} in
/-- Acts on other maps are no matter here, and no other deeds. -/
theorem aside_does_of_ne {deed : Deed n S K V} (hdeed : ∀ act, deed ≠ .act (.map map act))
    {thread : ThreadId} {answer : deed.Answer} :
    insertions map key [.does thread deed answer] = [] ∧
      restarts map key [.does thread deed answer] = [] := by
  cases deed with
  | act act =>
      cases act with
      | map other act =>
          -- what is done to another map does not bear on the key here
          have hne : ¬ other = map := fun heq => hdeed act (by rw [heq])
          cases act with
          | insertIfAbsent entry now => cases answer <;> simp [insertions, restarts, hne]
          | read asked now => cases answer <;> simp [insertions, restarts, hne]
          | _ => exact ⟨rfl, rfl⟩
      | clock | scheduler | log | sleep => exact ⟨rfl, rfl⟩
  | enter | resume | leave | gather => exact ⟨rfl, rfl⟩

end

/-- Whether a request is one of those that are made in a race for a key. -/
def MapRequest.IsRacing (key : K) (request : MapRequest K V) : Prop :=
  request = .get key ∨ ∃ value timeout, request = .putIfAbsent key value timeout

/-! ## Single acts -/

/-- What an act comes to in a race, given the entry that it finds under the key, if any, the entry
that it leaves there, what it has put in, and when it has started a countdown. -/
inductive Duty.Races (key : K) : Duty K V → Duty K V → Option (Entry K V) → Option (Entry K V) →
    List (Entry K V) → List Instant → Prop
  | waits (duty : Duty K V) (found : Option (Entry K V)) : Races key duty duty found found [] []
  | reserves (request : MapRequest K V) (reserved : Option Nat) (seq : Nat)
      (found : Option (Entry K V)) :
      Races key (.due request reserved) (.due request (some seq)) found found [] []
  | misses (reserved : Option Nat) :
      Races key (.due (.get key) reserved) (.answered (.get key) none) none none [] []
  | reads (reserved : Option Nat) (entry : Entry K V) (now : Instant) :
      Races key (.due (.get key) reserved) (.answered (.get key) (some entry.value)) (some entry)
        (some (entry.touch now)) [] [now]
  | wins (value : V) (timeout : Duration) (seq : Nat) (now : Instant) :
      Races key (.due (.putIfAbsent key value timeout) (some seq))
        (.answered (.putIfAbsent key value timeout) none) none
        (some (Entry.touch ⟨key, value, timeout, seq, none⟩ now))
        [⟨key, value, timeout, seq, none⟩] [now]
  | loses (value : V) (timeout : Duration) (reserved : Option Nat) (entry : Entry K V) :
      Races key (.due (.putIfAbsent key value timeout) reserved)
        (.answered (.putIfAbsent key value timeout) (some entry.value)) (some entry) (some entry)
        [] []

section Acts

variable [DecidableEq K] {map : Fin n} {key : K}

/-- Whether what a thread does to a map with an act is an act of a race. -/
def Duty.RacesWith (map : Fin n) (key : K) (duty : Duty K V) (act : MapAct K V)
    (enumeration : Enumeration K V) (state : MapState K V) : Prop :=
  ∀ (S : Type) (thread : ThreadId),
    let happened : List (Happening n S K V) :=
      [.does thread (.act (.map map act)) (act.answer enumeration state)]
    Races key duty (duty.after act (act.answer enumeration state)) (state.store.lookup key)
      ((act.apply state).store.lookup key) (insertions map key happened)
      (restarts map key happened)

theorem MapAct.LeavesEntries.races {act : MapAct K V} (h : act.LeavesEntries) {duty : Duty K V}
    (hpassing : ∀ found, duty ≠ .passing found) (enumeration : Enumeration K V)
    (state : MapState K V) : duty.RacesWith map key act enumeration state := by
  intro S thread happened
  rw [h.lookup state key]
  cases act with
  | read | insert | insertIfAbsent | remove | removeIfSame | clear => exact h.elim
  | reserve =>
      cases duty with
      | due => exact .reserves ..
      | answered | passing => exact .waits ..
  | scan now =>
      cases duty with
      | due | answered => exact .waits ..
      | passing found => exact absurd rfl (hpassing found)
  | _ => cases duty <;> exact .waits ..

theorem Duty.racesWith_read (reserved : Option Nat) (now : Instant)
    (enumeration : Enumeration K V) (state : MapState K V) :
    (Duty.due (.get key) reserved).RacesWith map key (.read key now) enumeration state := by
  intro S thread happened
  have hanswer : MapAct.answer enumeration state (.read key now) =
      (state.store.lookup key).map Entry.value := rfl
  have hafter : (MapAct.apply state (.read key now)).store.lookup key =
      (state.store.lookup key).map (·.touch now) := by
    simp [MapAct.apply, Store.lookup_read]
  simp only [happened, hanswer, hafter]
  cases state.store.lookup key with
  | none => exact .misses reserved
  | some entry => simpa [insertions, restarts, after] using Races.reads reserved entry now

theorem Duty.racesWith_insertIfAbsent (value : V) (timeout : Duration) (seq : Nat) (now : Instant)
    (enumeration : Enumeration K V) (state : MapState K V) :
    (Duty.due (.putIfAbsent key value timeout) (some seq)).RacesWith map key
      (.insertIfAbsent ⟨key, value, timeout, seq, none⟩ now) enumeration state := by
  intro S thread happened
  have hanswer : MapAct.answer enumeration state
      (.insertIfAbsent ⟨key, value, timeout, seq, none⟩ now) =
        (state.store.lookup key).map Entry.value := by
    cases hfound : state.store.lookup key <;>
      simp [MapAct.answer, Store.insertIfAbsent, hfound]
  have hafter : (MapAct.apply state
      (.insertIfAbsent ⟨key, value, timeout, seq, none⟩ now)).store.lookup key =
        (state.store.lookup key).or
          (some (Entry.touch ⟨key, value, timeout, seq, none⟩ now)) := by
    cases hfound : state.store.lookup key <;>
      simp [MapAct.apply, Store.lookup_insertIfAbsent, hfound]
  -- whether the key is there decides between winning and losing
  simp only [happened, hanswer, hafter]
  cases state.store.lookup key with
  | none => simpa [insertions, restarts, after] using Races.wins value timeout seq now
  | some entry => exact .loses value timeout (some seq) entry

/-- Whatever a thread in a race is permitted to do to the map is an act of the race. -/
theorem Duty.Permits.races {duty : Duty K V} {act : MapAct K V} (h : duty.Permits act)
    (hracing : ∃ request, duty.request? = some request ∧ request.IsRacing key)
    (enumeration : Enumeration K V) (state : MapState K V) :
    duty.RacesWith map key act enumeration state := by
  obtain ⟨request, hrequest, hracing⟩ := hracing
  have hleaves : act.LeavesEntries → duty.RacesWith map key act enumeration state := by
    refine fun hleaves => hleaves.races ?_ enumeration state
    rintro found rfl
    cases hrequest
  cases duty with
  | due asked reserved =>
      refine h.elim hleaves fun hdecides => ?_
      obtain rfl := Option.some.inj hrequest
      -- a get that is due reads the key, and a request to place an entry tries to
      rcases hracing with rfl | ⟨value, timeout, rfl⟩
      · obtain ⟨now, rfl⟩ := hdecides
        exact racesWith_read reserved now enumeration state
      · obtain ⟨seq, now, rfl, rfl⟩ := hdecides
        exact racesWith_insertIfAbsent value timeout seq now enumeration state
  | answered => exact hleaves h
  | passing => cases hrequest

end Acts

/-! ## Threads in a race -/

/-- Whether this tells of the call that a thread is about: when it has set out, since when it has
not set out again, and that it has taken its number since. -/
def Duty.CalledIn (map : Fin n) (key : K) (thread : ThreadId) (duty : Duty K V)
    (history : List (Happening n S K V)) : Prop :=
  ∃ request earlier since, duty.request? = some request ∧ request.IsRacing key ∧
    history = earlier ++ .setsOut thread (.ask request) :: since ∧
    (∀ errand, (thread, errand) ∉ departures since) ∧
    ∀ seq, duty = .due request (some seq) →
      .does thread (.act (.map map .reserve)) seq ∈ since

section

variable [DecidableEq K] (plan : Plan n S K V) (map : Fin n) (key : K)
  (history : List (Happening n S K V)) (traffic : Traffic n S K V)
  (duties : ThreadId → Option (Duty K V))

/-- What is known of the threads in a race. -/
structure Racing : Prop where
  hasDuty : ∀ thread, traffic.HasDuty plan map thread (duties thread)
  called : ∀ thread duty, duties thread = some duty → duty.CalledIn map key thread history

end

section Threads

variable {map : Fin n} {key : K} {history : List (Happening n S K V)} {thread : ThreadId}

theorem Duty.CalledIn.append {duty later : Duty K V} (h : duty.CalledIn map key thread history)
    {happened : List (Happening n S K V)} (hdepartures : ∀ errand, (thread, errand) ∉
      departures happened) (hrequest : later.request? = duty.request?)
    (hreserved : ∀ request seq, later = .due request (some seq) →
      duty = .due request (some seq) ∨
        Happening.does thread (.act (.map map .reserve)) seq ∈ happened) :
    later.CalledIn map key thread (history ++ happened) := by
  -- the departure is where it was, with more that has happened since
  obtain ⟨request, earlier, since, hsame, hracing, rfl, honce, hnumber⟩ := h
  refine ⟨request, earlier, since ++ happened, hrequest.trans hsame, hracing, by simp, ?_, ?_⟩
  · intro errand hmem
    rw [departures_append, List.mem_append] at hmem
    exact hmem.elim (honce errand) (hdepartures errand)
  · intro seq hlater
    rw [List.mem_append]
    exact (hreserved request seq hlater).imp_left (hnumber seq)

/-- A number has been taken before, or is taken just now. -/
theorem Duty.of_after_eq_due {duty : Duty K V} {act : MapAct K V} {answer : act.Answer}
    {request : MapRequest K V} {seq : Nat}
    (h : duty.after act answer = .due request (some seq)) :
    duty = .due request (some seq) ∨
      Happening.does thread (.act (.map map .reserve)) seq ∈
        [.does thread (.act (.map map act) : Deed n S K V) answer] := by
  cases duty with
  -- a request that is due is given its number by reserving one, or has it already
  | due asked reserved =>
      cases act with
      | reserve =>
          obtain ⟨-, hseq⟩ := Duty.due.inj h
          exact .inr (by simp [Option.some.inj hseq])
      | read | insert | insertIfAbsent | remove => cases h
      | _ => exact .inl h
  | answered => cases act <;> cases h
  | passing => cases act <;> cases h

variable [DecidableEq K] {plan : Plan n S K V} {depth : Nat} {traffic : Traffic n S K V}
  {duties : ThreadId → Option (Duty K V)}

theorem Racing.exists_request (h : Racing plan map key history traffic duties) {duty : Duty K V}
    (hduty : duties thread = some duty) :
    ∃ request, duty.request? = some request ∧ request.IsRacing key := by
  obtain ⟨request, -, -, hrequest, hracing, -⟩ := h.called thread duty hduty
  exact ⟨request, hrequest, hracing⟩

omit [DecidableEq K] in
/-- Whoever has a duty once that of a thread has changed is that thread, or has had it before. -/
theorem duty_update {other : ThreadId} {changed : Option (Duty K V)} {duty : Duty K V}
    (h : Function.update duties thread changed other = some duty) :
    other = thread ∧ changed = some duty ∨ other ≠ thread ∧ duties other = some duty := by
  by_cases heq : other = thread
  · rw [heq, Function.update_self] at h
    exact .inl ⟨heq, h⟩
  · rw [Function.update_of_ne heq] at h
    exact .inr ⟨heq, h⟩

/-- After a move of one thread, all others are where they have been. -/
theorem Racing.update (h : Racing plan map key history traffic duties)
    {happened : List (Happening n S K V)} {last : Traffic n S K V} {duty : Option (Duty K V)}
    (hothers : ∀ other, other ≠ thread → last.courses other = traffic.courses other)
    (hdepartures : ∀ other errand, other ≠ thread → (other, errand) ∉ departures happened)
    (hduty : last.HasDuty plan map thread duty)
    (hcalled : ∀ own, duty = some own → own.CalledIn map key thread (history ++ happened)) :
    Racing plan map key (history ++ happened) last (Function.update duties thread duty) := by
  constructor
  · intro other
    by_cases heq : other = thread
    · subst heq
      rwa [Function.update_self]
    · rw [Function.update_of_ne heq]
      exact (h.hasDuty other).congr (hothers other heq)
  · intro other own hown
    rcases duty_update hown with ⟨rfl, hchanged⟩ | ⟨hne, hown⟩
    · exact hcalled own hchanged
    · -- whoever else is under way set out in the history, not in what has happened now
      exact (h.called other own hown).append (fun errand => hdepartures other errand hne) rfl
        fun _ _ hsame => .inl hsame

theorem Racing.setsOut (h : Racing plan map key history traffic duties)
    {request : MapRequest K V} (hracing : request.IsRacing key) :
    Racing plan map key (history ++ [.setsOut thread (.ask request)])
      (traffic.setCourse thread (some (.ask request, plan.errand depth map (.ask request))))
      (Function.update duties thread (some (.due request none))) := by
  -- the errand is a request on the key, so it is due from the start
  have hrequest : (Errand.ask request).request? = some request :=
    Errand.request?_eq_some.mpr ⟨rfl, by rcases hracing with rfl | ⟨_, _, rfl⟩ <;> exact ⟨key, rfl⟩⟩
  have hduty : (Errand.ask request).duty = .due request none := by rw [Errand.duty, hrequest]
  refine h.update (fun other => traffic.courses_setCourse_of_ne _) ?_ ?_ ?_
  · intro other errand hne hmem
    simp [hne] at hmem
  · rw [← hduty]
    exact .setsOut (heeds_entry plan depth map hrequest)
  · intro own hown
    obtain rfl := Option.some.inj hown
    exact ⟨request, history, [], rfl, hracing, rfl, by simp, fun _ heq => by cases heq⟩

/-- What a thread does is an act of the race. -/
theorem Racing.does (h : Racing plan map key history traffic duties) {errand : Errand K V}
    {deed : Deed n S K V} {next : deed.Answer → Routine n S K V}
    (hcourse : traffic.courses thread = some (errand, .step deed next)) :
    ∃ duty later, duties thread = some duty ∧
      Duty.Races key duty later ((traffic.stage.deployment.state map).store.lookup key)
        (((traffic.stage.perform plan thread deed).2.deployment.state map).store.lookup key)
        (insertions map key [.does thread deed (traffic.stage.perform plan thread deed).1])
        (restarts map key [.does thread deed (traffic.stage.perform plan thread deed).1]) ∧
      Racing plan map key
        (history ++ [.does thread deed (traffic.stage.perform plan thread deed).1])
        ((traffic.withStage (traffic.stage.perform plan thread deed).2).setCourse thread
          (some (errand, next (traffic.stage.perform plan thread deed).1)))
        (Function.update duties thread (some later)) := by
  have hduty := h.hasDuty thread
  obtain ⟨duty, hsome⟩ := hduty.exists_eq_some hcourse
  rw [hsome] at hduty
  obtain ⟨hpermits, hlater⟩ := hduty.does hcourse
  have hracing := h.exists_request hsome
  refine ⟨duty, _, hsome, ?_, h.update (fun other => Traffic.courses_setCourse_of_ne _ _)
    (by simp) hlater ?_⟩
  · -- on the map the duty tells what becomes of the key
    by_cases hact : ∃ act, deed = .act (.map map act)
    · obtain ⟨act, rfl⟩ := hact
      have hstate : ((traffic.stage.perform plan thread (.act (.map map act))).2.deployment.state
          map) = act.apply (traffic.stage.deployment.state map) := by
        simp [Stage.perform, Plan.perform, Deployment.perform]
      rw [Duty.afterDeed_map, hstate]
      exact (Duty.permits_of_permitsDeed hpermits).races hracing _ _ S thread
    · -- beside the map nothing happens to the key
      have hne : ∀ act, deed ≠ .act (.map map act) := fun act heq => hact ⟨act, heq⟩
      have hstate : ((traffic.stage.perform plan thread deed).2.deployment.state map) =
          traffic.stage.deployment.state map := plan.state_perform hne _
      obtain ⟨hinsertions, hrestarts⟩ := aside_does_of_ne key hne
      rw [Duty.afterDeed_of_ne hne, hstate, hinsertions, hrestarts]
      exact .waits ..
  · intro own hown
    obtain rfl := Option.some.inj hown
    refine (h.called thread duty hsome).append (by simp) (Duty.request?_afterDeed ..) ?_
    -- a number is reserved by this very deed, or the duty had it before
    intro request seq hdue
    by_cases hact : ∃ act, deed = .act (.map map act)
    · obtain ⟨act, rfl⟩ := hact
      rw [Duty.afterDeed_map] at hdue
      exact Duty.of_after_eq_due hdue
    · rw [Duty.afterDeed_of_ne fun act heq => hact ⟨act, heq⟩] at hdue
      exact .inl hdue

/-- Whoever is back has been answered. -/
theorem Racing.returns (h : Racing plan map key history traffic duties) {errand : Errand K V}
    {outcomes : List (Outcome (Answer V))}
    (hcourse : traffic.courses thread = some (errand, .done outcomes)) :
    (∃ request given, errand = .ask request ∧ outcomes = [.ok (.value given)] ∧
      duties thread = some (.answered request given)) ∧
    Racing plan map key (history ++ [.returns thread errand outcomes])
      (traffic.setCourse thread none) (Function.update duties thread none) := by
  have hduty := h.hasDuty thread
  obtain ⟨duty, hsome⟩ := hduty.exists_eq_some hcourse
  rw [hsome] at hduty
  obtain ⟨hrequest, hheeds⟩ := hduty.of_course hcourse
  obtain ⟨request, hasked, -⟩ := h.exists_request hsome
  refine ⟨?_, h.update (fun other => traffic.courses_setCourse_of_ne _) (by simp)
    (traffic.courses_setCourse_self thread none) nofun⟩
  have hends := hheeds.of_done
  -- a thread comes back only when it has been answered
  cases duty with
  | due => exact hends.elim
  | answered asked given =>
      obtain ⟨rfl, -⟩ := Errand.request?_eq_some.mp hrequest.symm
      exact ⟨asked, given, rfl, hends, hsome⟩
  | passing => cases hasked

end Threads

section Moves

variable [DecidableEq K] (map : Fin n) (key : K)

/-- A single move in a race, given what is found under the key and the duties of the threads. -/
inductive Racing.Move : Option (Entry K V) → (ThreadId → Option (Duty K V)) →
    List (Happening n S K V) → Option (Entry K V) → (ThreadId → Option (Duty K V)) → Prop
  | setsOut {found : Option (Entry K V)} {duties : ThreadId → Option (Duty K V)}
      {thread : ThreadId} {request : MapRequest K V} :
      duties thread = none → request.IsRacing key →
      Move found duties [.setsOut thread (.ask request)] found
        (Function.update duties thread (some (.due request none)))
  | does {found later : Option (Entry K V)} {duties : ThreadId → Option (Duty K V)}
      {thread : ThreadId} {duty next : Duty K V} {deed : Deed n S K V} {answer : deed.Answer} :
      duties thread = some duty →
      Duty.Races key duty next found later (insertions map key [.does thread deed answer])
        (restarts map key [.does thread deed answer]) →
      Move found duties [.does thread deed answer] later
        (Function.update duties thread (some next))
  | returns {found : Option (Entry K V)} {duties : ThreadId → Option (Duty K V)}
      {thread : ThreadId} {request : MapRequest K V} {given : Option V} :
      duties thread = some (.answered request given) →
      Move found duties [.returns thread (.ask request) [.ok (.value given)]] found
        (Function.update duties thread none)
  | clockMoves {found : Option (Entry K V)} {duties : ThreadId → Option (Duty K V)} :
      Move found duties [] found duties

variable {map key} {plan : Plan n S K V} {depth : Nat} {admits : Admission n S K V}
  {history happened : List (Happening n S K V)} {traffic last : Traffic n S K V}
  {duties : ThreadId → Option (Duty K V)}

/-- As long as nobody sets out on anything else, every move is a move in the race. -/
theorem Racing.move (h : Racing plan map key history traffic duties)
    (hmove : plan.Moves depth map admits traffic happened last)
    (hracing : ∀ thread errand, (thread, errand) ∈ departures happened →
      ∃ request, errand = .ask request ∧ request.IsRacing key) :
    ∃ later, Racing plan map key (history ++ happened) last later ∧
      Move map key ((traffic.stage.deployment.state map).store.lookup key) duties happened
        ((last.stage.deployment.state map).store.lookup key) later := by
  cases hmove with
  | setsOut thread errand hcourse =>
      obtain ⟨request, rfl, hrequest⟩ := hracing thread errand (by simp)
      exact ⟨_, h.setsOut hrequest, .setsOut ((h.hasDuty thread).eq_none hcourse) hrequest⟩
  | does thread hcourse _ =>
      obtain ⟨duty, later, hduty, hraces, hlater⟩ := h.does hcourse
      exact ⟨_, hlater, .does hduty hraces⟩
  | returns thread hcourse =>
      obtain ⟨⟨request, given, rfl, rfl, hduty⟩, hlater⟩ := h.returns hcourse
      exact ⟨_, hlater, .returns hduty⟩
  | clockMoves act =>
      refine ⟨duties, ⟨fun thread => (h.hasDuty thread).congr rfl, ?_⟩, .clockMoves⟩
      rw [List.append_nil]
      exact h.called

end Moves

end ExpiringMap
