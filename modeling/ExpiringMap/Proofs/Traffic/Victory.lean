import ExpiringMap.Proofs.Traffic.Race

/-!
# Who wins a race

The first thread in a race that comes to its act on the store with a value of its own puts an entry
in and wins.  From then on its value is what is found under the key, and what everybody else is
given (`race_has_one_winner`).  Until then nothing is found, nobody with a value has come to that
act, and nobody can tell that there is a winner.
-/

namespace ExpiringMap

variable {n : Nat} {S K V : Type}

/-- Whoever has put the entry in under the key, with what has been asked for and the number that has
been taken. -/
structure Winner (V : Type) where
  thread : ThreadId
  value : V
  timeout : Duration
  seq : Nat

namespace Winner

variable (winner : Winner V) (key : K)

def request : MapRequest K V := .putIfAbsent key winner.value winner.timeout

/-- The entry of the winner before its countdown is started. -/
def entry : Entry K V := ⟨key, winner.value, winner.timeout, winner.seq, none⟩

/-- Whether a thread may be given this for a request: the value of the winner, or nothing, as the
winner itself is, and anybody who has asked for the value too early. -/
def Gives (thread : ThreadId) (request : MapRequest K V) (given : Option V) : Prop :=
  given = some winner.value ∨
    given = none ∧ (request = .get key ∨ thread = winner.thread ∧ request = winner.request key)

variable {winner : Winner V} {key : K}

/-- Whoever is given nothing and is not the winner has asked for the value. -/
theorem Gives.eq_get {thread : ThreadId} {request : MapRequest K V}
    (h : winner.Gives key thread request none) (hne : thread ≠ winner.thread) :
    request = .get key := by
  rcases h with hgiven | ⟨-, hget | ⟨hsame, -⟩⟩
  · cases hgiven
  · exact hget
  · exact absurd hsame hne

end Winner

/-- Who is back from putting a value under a key if it is absent, and has been given none. -/
def victors (history : List (Happening n S K V)) : List ThreadId :=
  (arrivals history).filterMap fun
    | (thread, .ask (.putIfAbsent ..), [.ok (.value none)]) => some thread
    | _ => none

@[simp] theorem victors_append (earlier later : List (Happening n S K V)) :
    victors (earlier ++ later) = victors earlier ++ victors later := by
  simp [victors]

/-- Nobody who has been given a value is a victor, and nobody who has asked for one. -/
theorem victors_returns {thread : ThreadId} {request : MapRequest K V} {given : Option V}
    (h : given = none → ∃ key, request = .get key) :
    victors [(.returns thread (.ask request) [.ok (.value given)] : Happening n S K V)] = [] := by
  cases given with
  | none =>
      obtain ⟨key, rfl⟩ := h rfl
      rfl
  | some value => cases request <;> rfl

/-- Whether whoever is back from an errand tells that there is a winner: it has put a value under
the key, or has been given one. -/
def Tells (arrival : ThreadId × Errand K V × List (Outcome (Answer V))) : Prop :=
  (∃ key value timeout, arrival.2.1 = .ask (.putIfAbsent key value timeout)) ∨
    ∃ value, arrival.2.2 = [.ok (.value (some value))]

/-! ## What is known in the course of a race -/

section Invariant

variable [DecidableEq K] (map : Fin n) (key : K) (history : List (Happening n S K V))
  (found : Option (Entry K V)) (duties : ThreadId → Option (Duty K V))

/-- Whether a race has not been won: nothing has been put in, and everybody who is back has asked
for the value and has been given none. -/
structure Undecided : Prop where
  found : found = none
  insertions : insertions map key history = []
  restarts : restarts map key history = []
  arrivals : ∀ thread errand outcomes, (thread, errand, outcomes) ∈ arrivals history →
    errand = .ask (.get key) ∧ outcomes = [.ok (.value none)]

/-- What is known as long as nobody has won. -/
structure Unwon extends Undecided map key history found where
  answered : ∀ thread request given, duties thread = some (.answered request given) →
    request = .get key ∧ given = none
  /-- Whoever puts a value under the key has not come to it. -/
  pending : ∀ thread value timeout,
    (thread, .ask (.putIfAbsent key value timeout)) ∈ departures history →
      ∃ reserved, duties thread = some (.due (.putIfAbsent key value timeout) reserved)

/-- Whether a race has been won: nothing has been put in but the entry of the winner, which is found
with the countdown that has been started last, and everybody who is back has been given what the
winner admits. -/
structure Decided (winner : Winner V) : Prop where
  found : ∃ now, (restarts map key history).getLast? = some now ∧
    found = some ((winner.entry key).touch now)
  insertions : insertions map key history = [winner.entry key]
  called : ∃ earlier since later,
    history = earlier ++ .setsOut winner.thread (.ask (winner.request key)) :: (since ++ later) ∧
      (∀ errand, (winner.thread, errand) ∉ departures since) ∧
      .does winner.thread (.act (.map map .reserve)) winner.seq ∈ since
  arrivals : ∀ thread errand outcomes, (thread, errand, outcomes) ∈ arrivals history →
    ∃ request given, errand = .ask request ∧ outcomes = [.ok (.value given)] ∧
      winner.Gives key thread request given

/-- What is known once somebody has won. -/
structure Won (winner : Winner V) extends Decided map key history found winner where
  answered : ∀ thread request given, duties thread = some (.answered request given) →
    winner.Gives key thread request given
  /-- The winner is the only one who is given none for a value of his own. -/
  once : (duties winner.thread = some (.answered (winner.request key) none) ∧
      victors history = []) ∨
    (victors history = [winner.thread] ∧
      ∀ thread request, duties thread = some (.answered request none) → request = .get key)
  /-- Whoever has asked for the value after somebody could tell that there is one is given it. -/
  informed : ∀ earlier later thread,
    history = earlier ++ .setsOut thread (.ask (.get key)) :: later →
      (∃ arrival ∈ ExpiringMap.arrivals earlier, Tells arrival) →
        (∀ outcomes, (thread, .ask (.get key), outcomes) ∈ ExpiringMap.arrivals later →
          outcomes = [.ok (.value (some winner.value))]) ∧
        ∀ given, duties thread = some (.answered (.get key) given) → given = some winner.value

end Invariant

section Steps

variable [DecidableEq K] {map : Fin n} {key : K} {history : List (Happening n S K V)}
  {found later : Option (Entry K V)} {duties : ThreadId → Option (Duty K V)} {thread : ThreadId}

omit [DecidableEq K] in
/-- A thread that has no answer by what has changed leaves the answers to the others. -/
theorem answered_of_update {changed : Option (Duty K V)} {other : ThreadId}
    {request : MapRequest K V} {given : Option V}
    (hchanged : changed ≠ some (.answered request given))
    (h : Function.update duties thread changed other = some (.answered request given)) :
    other ≠ thread ∧ duties other = some (.answered request given) :=
  (duty_update h).resolve_left fun ⟨_, hanswered⟩ => hchanged hanswered

/-! ### Before anybody has won -/

/-- Nobody can tell that there is a winner. -/
theorem Undecided.not_tells (h : Undecided map key history found)
    {arrival : ThreadId × Errand K V × List (Outcome (Answer V))}
    (hmem : arrival ∈ ExpiringMap.arrivals history) : ¬ Tells arrival := by
  obtain ⟨thread, errand, outcomes⟩ := arrival
  obtain ⟨rfl, rfl⟩ := h.arrivals thread errand outcomes hmem
  rintro (⟨_, _, _, heq⟩ | ⟨value, heq⟩) <;> simp at heq

theorem Undecided.victors_eq_nil (h : Undecided map key history found) : victors history = [] := by
  refine List.filterMap_eq_nil_iff.mpr fun ⟨thread, errand, outcomes⟩ hmem => ?_
  obtain ⟨rfl, rfl⟩ := h.arrivals thread errand outcomes hmem
  rfl

theorem Unwon.setsOut (h : Unwon map key history found duties) (hduty : duties thread = none)
    (request : MapRequest K V) :
    Unwon map key (history ++ [.setsOut thread (.ask request)]) found
      (Function.update duties thread (some (.due request none))) where
  found := h.found
  insertions := by simpa [insertions] using h.insertions
  restarts := by simpa [restarts] using h.restarts
  arrivals := by simpa using h.arrivals
  answered other asked given hother := by
    exact h.answered other asked given (answered_of_update (by simp) hother).2
  pending other value timeout hmem := by
    by_cases heq : other = thread
    · subst heq
      -- a request that is asked for now is due, and one that was asked for before is due still
      simp only [departures_append, departures_setsOut, List.mem_append, List.mem_singleton] at hmem
      rcases hmem with hmem | hmem
      · obtain ⟨reserved, hdue⟩ := h.pending other value timeout hmem
        cases hduty.symm.trans hdue
      · obtain ⟨-, hmem⟩ := Prod.mk.inj hmem
        obtain rfl := Errand.ask.inj hmem
        exact ⟨none, Function.update_self ..⟩
    · rw [Function.update_of_ne heq]
      exact h.pending other value timeout (by simpa [heq] using hmem)

/-- A thread may have been told that there is nothing, or not have come to its act yet. -/
theorem Unwon.does (h : Unwon map key history found duties) {duty next : Duty K V}
    {deed : Deed n S K V} {answer : deed.Answer} (hduty : duties thread = some duty)
    (hinsertions : insertions map key [.does thread deed answer] = [])
    (hrestarts : restarts map key [.does thread deed answer] = [])
    (hanswered : ∀ request given, next = .answered request given →
      request = .get key ∧ given = none)
    (hpending : ∀ value timeout reserved, duty = .due (.putIfAbsent key value timeout) reserved →
      ∃ reserved, next = .due (.putIfAbsent key value timeout) reserved) :
    Unwon map key (history ++ [.does thread deed answer]) found
      (Function.update duties thread (some next)) where
  found := h.found
  insertions := by rw [insertions_append, h.insertions, hinsertions]; rfl
  restarts := by rw [restarts_append, h.restarts, hrestarts]; rfl
  arrivals := by simpa using h.arrivals
  answered other asked given hother := by
    -- the duty of the thread has come to the next one, and nobody else has a new duty
    rcases duty_update hother with ⟨-, hnext⟩ | ⟨-, hother⟩
    · exact hanswered asked given (Option.some.inj hnext)
    · exact h.answered other asked given hother
  pending other value timeout hmem := by
    obtain ⟨reserved, hdue⟩ := h.pending other value timeout (by simpa using hmem)
    by_cases heq : other = thread
    · subst heq
      obtain ⟨reserved, hnext⟩ := hpending value timeout reserved
        (Option.some.inj (hduty.symm.trans hdue))
      exact ⟨reserved, by rw [Function.update_self, hnext]⟩
    · exact ⟨reserved, by rw [Function.update_of_ne heq, hdue]⟩

theorem Unwon.returns (h : Unwon map key history found duties) {request : MapRequest K V}
    {given : Option V} (hduty : duties thread = some (.answered request given)) :
    Unwon map key (history ++ [.returns thread (.ask request) [.ok (.value given)]]) found
      (Function.update duties thread none) where
  found := h.found
  insertions := by simpa [insertions] using h.insertions
  restarts := by simpa [restarts] using h.restarts
  arrivals other errand outcomes hmem := by
    simp only [arrivals_append, arrivals_returns, List.mem_append, List.mem_singleton] at hmem
    rcases hmem with hmem | heq
    · exact h.arrivals other errand outcomes hmem
    · -- what comes back is what the thread was to be answered
      obtain ⟨rfl, rfl⟩ := h.answered thread request given hduty
      obtain ⟨-, rfl, rfl⟩ : other = thread ∧ _ ∧ _ := by simpa using heq
      exact ⟨rfl, rfl⟩
  answered other asked value hother := by
    exact h.answered other asked value (answered_of_update (by simp) hother).2
  pending other value timeout hmem := by
    obtain ⟨reserved, hdue⟩ := h.pending other value timeout (by simpa using hmem)
    by_cases heq : other = thread
    · subst heq
      cases hduty.symm.trans hdue
    · exact ⟨reserved, by rw [Function.update_of_ne heq, hdue]⟩

/-- The first thread whose value is put in has won. -/
theorem Unwon.won (h : Unwon map key history found duties) (winner : Winner V)
    {deed : Deed n S K V} {answer : deed.Answer} {now : Instant}
    (hinsertions : insertions map key [.does winner.thread deed answer] = [winner.entry key])
    (hrestarts : restarts map key [.does winner.thread deed answer] = [now])
    (hcalled : (Duty.due (winner.request key) (some winner.seq)).CalledIn map key winner.thread
      history) :
    Won map key (history ++ [.does winner.thread deed answer])
      (some ((winner.entry key).touch now))
      (Function.update duties winner.thread (some (.answered (winner.request key) none)))
      winner where
  found := ⟨now, by rw [restarts_append, h.restarts, hrestarts]; rfl, rfl⟩
  insertions := by rw [insertions_append, h.insertions, hinsertions]; rfl
  called := by
    obtain ⟨request, earlier, since, hrequest, -, rfl, honce, hnumber⟩ := hcalled
    obtain rfl := Option.some.inj hrequest
    exact ⟨earlier, since, _, by rw [List.append_assoc]; rfl, honce, hnumber _ rfl⟩
  arrivals other errand outcomes hmem := by
    obtain ⟨rfl, rfl⟩ := h.arrivals other errand outcomes (by simpa using hmem)
    exact ⟨.get key, none, rfl, rfl, .inr ⟨rfl, .inl rfl⟩⟩
  answered other asked given hother := by
    rcases duty_update hother with ⟨rfl, hwins⟩ | ⟨-, hother⟩
    · obtain ⟨rfl, rfl⟩ := Duty.answered.inj (Option.some.inj hwins)
      exact .inr ⟨rfl, .inr ⟨rfl, rfl⟩⟩
    · obtain ⟨rfl, rfl⟩ := h.answered other asked given hother
      exact .inr ⟨rfl, .inl rfl⟩
  once := .inl ⟨Function.update_self .., by
    rw [victors_append, h.victors_eq_nil]; rfl⟩
  informed earlier since other heq htells := by
    -- nobody who is back so far can tell
    obtain ⟨arrival, hmem, htells⟩ := htells
    refine absurd htells (h.toUndecided.not_tells ?_)
    have harrivals := congrArg arrivals heq
    simp only [arrivals_append, arrivals_does, List.append_nil] at harrivals
    rw [harrivals]
    exact List.mem_append_left _ hmem

/-- With every move the race stays open, or somebody wins. -/
theorem Unwon.move {happened : List (Happening n S K V)} {next : ThreadId → Option (Duty K V)}
    (h : Unwon map key history found duties)
    (hcalled : ∀ thread duty, duties thread = some duty → duty.CalledIn map key thread history)
    (hmove : Racing.Move map key found duties happened later next) :
    Unwon map key (history ++ happened) later next ∨
      ∃ winner, Won map key (history ++ happened) later next winner := by
  -- while nothing is found only what places the entry can decide the race
  have hfound := h.found
  cases hmove with
  | setsOut hduty _ => exact .inl (h.setsOut hduty _)
  | returns hduty => exact .inl (h.returns hduty)
  | clockMoves =>
      rw [List.append_nil]
      exact .inl h
  | @does _ _ thread duty next deed answer hduty hraces =>
      generalize hinsertions : insertions map key [.does thread deed answer] = put at hraces
      generalize hrestarts : restarts map key [.does thread deed answer] = restarted at hraces
      cases hraces with
      | waits =>
          refine .inl (h.does hduty hinsertions hrestarts ?_ fun value timeout reserved hdue =>
            ⟨reserved, hdue⟩)
          rintro request given rfl
          exact h.answered thread request given hduty
      | reserves request reserved seq =>
          refine .inl (h.does hduty hinsertions hrestarts nofun fun value timeout _ hdue => ?_)
          obtain ⟨rfl, -⟩ := Duty.due.inj hdue
          exact ⟨some seq, rfl⟩
      -- a get that finds nothing is answered so
      | misses reserved =>
          refine .inl (h.does hduty hinsertions hrestarts ?_ nofun)
          rintro request given heq
          obtain ⟨rfl, rfl⟩ := Duty.answered.inj heq
          exact ⟨rfl, rfl⟩
      | reads | loses => cases hfound
      | wins value timeout seq now =>
          exact .inr ⟨⟨thread, value, timeout, seq⟩,
            h.won ⟨thread, value, timeout, seq⟩ hinsertions hrestarts (hcalled thread _ hduty)⟩

/-! ### Once somebody has won -/

section

variable {winner : Winner V} {happening : Happening n S K V}
  {next : ThreadId → Option (Duty K V)}

/-- Whoever is informed stays informed, and whoever sets out now is going to be. -/
theorem Won.informed_append (h : Won map key history found duties winner)
    (harrivals : ∀ thread outcomes,
      (thread, Errand.ask (.get key), outcomes) ∈ arrivals [happening] →
        ∃ given, duties thread = some (.answered (.get key) given) ∧
          outcomes = [.ok (.value given)])
    (hanswered : ∀ thread given, next thread = some (.answered (.get key) given) →
      given = some winner.value ∨ duties thread = some (.answered (.get key) given) ∧
        ∀ errand, happening ≠ .setsOut thread errand)
    (earlier later : List (Happening n S K V)) (thread : ThreadId)
    (hsplit : history ++ [happening] = earlier ++ .setsOut thread (.ask (.get key)) :: later)
    (htells : ∃ arrival ∈ ExpiringMap.arrivals earlier, Tells arrival) :
    (∀ outcomes, (thread, .ask (.get key), outcomes) ∈ ExpiringMap.arrivals later →
      outcomes = [.ok (.value (some winner.value))]) ∧
    ∀ given, next thread = some (.answered (.get key) given) → given = some winner.value := by
  -- either the get has set out just now, or it had set out before
  rcases append_singleton_eq_append_cons hsplit with ⟨-, rfl, rfl⟩ | ⟨since, rfl, hearlier⟩
  · refine ⟨fun outcomes hmem => by simp at hmem, fun given hgiven => ?_⟩
    exact (hanswered thread given hgiven).resolve_right fun ⟨_, hne⟩ => hne _ rfl
  · obtain ⟨hback, hgiven⟩ := h.informed earlier since thread hearlier htells
    constructor
    · intro outcomes hmem
      rw [arrivals_append, List.mem_append] at hmem
      rcases hmem with hmem | hmem
      · exact hback outcomes hmem
      · -- a get that comes back now brings what it was to be answered
        obtain ⟨given, hduty, rfl⟩ := harrivals thread outcomes hmem
        rw [hgiven given hduty]
    · intro given hnext
      exact (hanswered thread given hnext).elim id fun ⟨hduty, _⟩ => hgiven given hduty

theorem Decided.called_append (h : Decided map key history found winner) :
    ∃ earlier since later,
      history ++ [happening] =
          earlier ++ .setsOut winner.thread (.ask (winner.request key)) :: (since ++ later) ∧
        (∀ errand, (winner.thread, errand) ∉ departures since) ∧
        .does winner.thread (.act (.map map .reserve)) winner.seq ∈ since := by
  obtain ⟨earlier, since, later, rfl, honce, hnumber⟩ := h.called
  exact ⟨earlier, since, later ++ [happening], by simp, honce, hnumber⟩

theorem Won.setsOut (h : Won map key history found duties winner) (hduty : duties thread = none)
    (request : MapRequest K V) :
    Won map key (history ++ [.setsOut thread (.ask request)]) found
      (Function.update duties thread (some (.due request none))) winner where
  found := by simpa [restarts] using h.found
  insertions := by simpa [insertions] using h.insertions
  called := h.called_append
  arrivals := by simpa using h.arrivals
  answered other asked given hother := by
    exact h.answered other asked given (answered_of_update (by simp) hother).2
  once := by
    have hvictors : victors (history ++ [.setsOut thread (.ask request)]) = victors history := by
      simp [victors]
    rw [hvictors]
    -- either the winner has not come back yet, or it has been told of its victory
    rcases h.once with ⟨hwinner, hnobody⟩ | ⟨hvictor, hgets⟩
    · have hne : winner.thread ≠ thread := fun heq => by cases hduty.symm.trans (heq ▸ hwinner)
      refine .inl ⟨?_, hnobody⟩
      rwa [Function.update_of_ne hne]
    · exact .inr ⟨hvictor, fun other asked hother =>
        hgets other asked (answered_of_update (by simp) hother).2⟩
  informed := by
    refine h.informed_append (by simp) fun other given hother => .inr ?_
    obtain ⟨hne, hother⟩ := answered_of_update (by simp) hother
    exact ⟨hother, fun errand hsame => hne (Happening.setsOut.inj hsame).1.symm⟩

omit [DecidableEq K] in
/-- What a thread has been given once another has done something is the value of the winner, or it
has been given it before. -/
theorem answered_or_before {duty next : Duty K V} {other : ThreadId} {asked : MapRequest K V}
    {given : Option V} (hduty : duties thread = some duty)
    (hanswered : ∀ request given, next = .answered request given →
      given = some winner.value ∨ duty = next)
    (h : Function.update duties thread (some next) other = some (.answered asked given)) :
    given = some winner.value ∨ duties other = some (.answered asked given) := by
  rcases duty_update h with ⟨rfl, hnext⟩ | ⟨-, hother⟩
  · refine (hanswered asked given (Option.some.inj hnext)).imp_right ?_
    rintro rfl
    exact hduty.trans hnext
  · exact .inr hother

/-- A thread that does something may be given the value of the winner. -/
theorem Won.does (h : Won map key history found duties winner) {duty next : Duty K V}
    {deed : Deed n S K V} {answer : deed.Answer} (hduty : duties thread = some duty)
    (hinsertions : insertions map key [.does thread deed answer] = [])
    (hlater : ∃ now,
      (restarts map key (history ++ [.does thread deed answer])).getLast? = some now ∧
        later = some ((winner.entry key).touch now))
    (hkeeps : ∀ request given, duty = .answered request given → next = duty)
    (hanswered : ∀ request given, next = .answered request given →
      given = some winner.value ∨ duty = next) :
    Won map key (history ++ [.does thread deed answer]) later
      (Function.update duties thread (some next)) winner where
  found := hlater
  insertions := by rw [insertions_append, h.insertions, hinsertions]; rfl
  called := h.called_append
  arrivals := by simpa using h.arrivals
  answered other asked given hother := by
    rcases answered_or_before hduty hanswered hother with hgiven | hbefore
    · exact .inl hgiven
    · exact h.answered other asked given hbefore
  once := by
    have hvictors : victors (history ++ [.does thread deed answer]) = victors history := by
      simp [victors]
    rw [hvictors]
    refine h.once.imp (fun ⟨hwinner, hnobody⟩ => ⟨?_, hnobody⟩) (fun ⟨hvictor, hgets⟩ =>
      ⟨hvictor, fun other asked hother => ?_⟩)
    · -- the winner keeps its duty until it comes back
      by_cases heq : winner.thread = thread
      · subst heq
        obtain rfl := Option.some.inj (hduty.symm.trans hwinner)
        rw [Function.update_self, hkeeps _ _ rfl]
      · rwa [Function.update_of_ne heq]
    · -- nobody else is given nothing
      rcases answered_or_before hduty hanswered hother with hgiven | hbefore
      · cases hgiven
      · exact hgets other asked hbefore
  informed := h.informed_append (by simp) fun other given hother =>
    (answered_or_before hduty hanswered hother).imp_right fun hbefore => ⟨hbefore, by simp⟩

theorem Won.returns (h : Won map key history found duties winner) {request : MapRequest K V}
    {given : Option V} (hduty : duties thread = some (.answered request given)) :
    Won map key (history ++ [.returns thread (.ask request) [.ok (.value given)]]) found
      (Function.update duties thread none) winner where
  found := by simpa [restarts] using h.found
  insertions := by simpa [insertions] using h.insertions
  called := h.called_append
  arrivals other errand outcomes hmem := by
    simp only [arrivals_append, arrivals_returns, List.mem_append, List.mem_singleton] at hmem
    rcases hmem with hmem | heq
    · exact h.arrivals other errand outcomes hmem
    · obtain ⟨rfl, rfl, rfl⟩ : other = thread ∧ errand = _ ∧ outcomes = _ := by simpa using heq
      exact ⟨request, given, rfl, rfl, h.answered other request given hduty⟩
  answered other asked value hother := by
    exact h.answered other asked value (answered_of_update (by simp) hother).2
  once := by
    rw [victors_append]
    rcases h.once with ⟨hwinner, hnobody⟩ | ⟨hvictor, hgets⟩
    · by_cases heq : winner.thread = thread
      · -- the winner is back
        subst heq
        obtain ⟨rfl, rfl⟩ := Duty.answered.inj (Option.some.inj (hduty.symm.trans hwinner))
        refine .inr ⟨by rw [hnobody]; rfl, fun other asked hother => ?_⟩
        obtain ⟨hne, hother⟩ := answered_of_update (by simp) hother
        exact (h.answered other asked none hother).eq_get hne
      · refine .inl ⟨by rwa [Function.update_of_ne heq], ?_⟩
        rw [hnobody, victors_returns fun hgiven => ⟨key, ?_⟩]
        · rfl
        · exact (h.answered thread request none (hgiven ▸ hduty)).eq_get (Ne.symm heq)
    · refine .inr ⟨?_, fun other asked hother => ?_⟩
      · rw [hvictor, victors_returns fun hgiven => ⟨key, hgets thread request (hgiven ▸ hduty)⟩]
        rfl
      · exact hgets other asked (answered_of_update (by simp) hother).2
  informed := by
    refine h.informed_append (fun other outcomes hmem => ?_) fun other value hother => .inr ?_
    · obtain ⟨rfl, rfl, rfl⟩ : other = thread ∧ MapRequest.get key = request ∧ outcomes = _ := by
        simpa using hmem
      exact ⟨given, hduty, rfl⟩
    · exact ⟨(answered_of_update (by simp) hother).2, by simp⟩

end

/-- Whatever happens once somebody has won, nobody else wins. -/
theorem Won.move {winner : Winner V} {happened : List (Happening n S K V)}
    {next : ThreadId → Option (Duty K V)} (h : Won map key history found duties winner)
    (hmove : Racing.Move map key found duties happened later next) :
    Won map key (history ++ happened) later next winner := by
  -- the entry is there, so its latest restart is what its deadline goes by
  obtain ⟨now, hnow, hfound⟩ := h.found
  cases hmove with
  | setsOut hduty _ => exact h.setsOut hduty _
  | returns hduty => exact h.returns hduty
  | clockMoves =>
      rw [List.append_nil]
      exact h
  | @does _ _ thread duty next deed answer hduty hraces =>
      generalize hinsertions : insertions map key [.does thread deed answer] = put at hraces
      generalize hrestarts : restarts map key [.does thread deed answer] = restarted at hraces
      -- if nothing restarts the countdown, the latest restart is the one of before
      have hstill : restarted = [] →
          (restarts map key (history ++ [.does thread deed answer])).getLast? = some now := by
        rintro rfl
        rwa [restarts_append, hrestarts, List.append_nil]
      cases hraces with
      | waits =>
          exact h.does hduty hinsertions ⟨now, hstill rfl, hfound⟩ (fun _ _ _ => rfl)
            fun _ _ _ => .inr rfl
      | reserves => exact h.does hduty hinsertions ⟨now, hstill rfl, hfound⟩ nofun nofun
      | misses | wins => cases hfound
      | reads reserved entry restarted =>
          obtain rfl := Option.some.inj hfound
          refine h.does hduty hinsertions ⟨restarted, ?_, rfl⟩ nofun fun asked given heq => .inl ?_
          · rw [restarts_append, hrestarts, List.getLast?_concat]
          · exact (Duty.answered.inj heq).2.symm
      | loses value timeout reserved entry =>
          obtain rfl := Option.some.inj hfound
          exact h.does hduty hinsertions ⟨now, hstill rfl, rfl⟩ nofun fun asked given heq =>
            .inl (Duty.answered.inj heq).2.symm

end Steps

/-! ## One winner -/

section Run

variable [DecidableEq K] {plan : Plan n S K V} {depth : Nat} {map : Fin n} {key : K}
  {admits : Admission n S K V} {start : Deployment n S K V} {history : List (Happening n S K V)}
  {last : Traffic n S K V}

theorem exists_racing
    (hinterleaves : plan.Interleaves depth map admits (.initial start) history last)
    (habsent : (start.state map).store.lookup key = none)
    (hracing : ∀ thread errand, (thread, errand) ∈ departures history →
      ∃ request, errand = .ask request ∧ request.IsRacing key) :
    ∃ duties, Racing plan map key history last duties ∧
      (Unwon map key history ((last.stage.deployment.state map).store.lookup key) duties ∨
        ∃ winner, Won map key history ((last.stage.deployment.state map).store.lookup key) duties
          winner) := by
  induction hinterleaves with
  | start =>
      refine ⟨fun _ => none, ⟨fun _ => rfl, nofun⟩, .inl ?_⟩
      exact ⟨⟨habsent, rfl, rfl, nofun⟩, nofun, nofun⟩
  | move _ hmove ih =>
      simp only [departures_append, List.mem_append] at hracing
      obtain ⟨duties, hbefore, hstate⟩ := ih fun thread errand hmem =>
        hracing thread errand (.inl hmem)
      obtain ⟨later, hlater, hmove⟩ := hbefore.move hmove fun thread errand hmem =>
        hracing thread errand (.inr hmem)
      refine ⟨later, hlater, ?_⟩
      -- the race is open until it is won, and then it stays won by the same thread
      rcases hstate with hunwon | ⟨winner, hwon⟩
      · exact hunwon.move hbefore.called hmove
      · exact .inr ⟨winner, hwon.move hmove⟩

variable (map key history last)

/-- Whether a race is open: it is undecided, and if everybody is back, nobody has put in a value. -/
structure RaceOpen : Prop extends
    Undecided map key history ((last.stage.deployment.state map).store.lookup key) where
  nobody : (∀ thread, last.courses thread = none) →
    ∀ thread value timeout, (thread, .ask (.putIfAbsent key value timeout)) ∉ departures history

/-- Whether a race has been won by one thread. -/
structure RaceWon (winner : Winner V) : Prop extends
    Decided map key history ((last.stage.deployment.state map).store.lookup key) winner where
  /-- Nobody else is given none for putting in a value. -/
  victors : victors history = [] ∨ victors history = [winner.thread]
  /-- Once everybody is back, so is the winner. -/
  back : (∀ thread, last.courses thread = none) → ExpiringMap.victors history = [winner.thread]
  /-- Whoever asks for the value when somebody can tell that there is one is given it. -/
  informed : ∀ earlier later thread,
    history = earlier ++ .setsOut thread (.ask (.get key)) :: later →
      (∃ arrival ∈ ExpiringMap.arrivals earlier, Tells arrival) →
        ∀ outcomes, (thread, .ask (.get key), outcomes) ∈ ExpiringMap.arrivals later →
          outcomes = [.ok (.value (some winner.value))]

variable {map key history last}

/-- Threads that race for a key that is absent at first, with values of their own or asking for the
value, have one winner at most, whatever comes in between and whichever lock they go by: nothing
but its entry is put in, and everybody else is given its value, or nothing for having asked too
early. -/
theorem race_has_one_winner
    (hinterleaves : plan.Interleaves depth map admits (.initial start) history last)
    (habsent : (start.state map).store.lookup key = none)
    (hracing : ∀ thread errand, (thread, errand) ∈ departures history →
      ∃ request, errand = .ask request ∧ request.IsRacing key) :
    RaceOpen map key history last ∨ ∃ winner, RaceWon map key history last winner := by
  obtain ⟨duties, hduties, hstate⟩ := exists_racing hinterleaves habsent hracing
  -- when everybody has come back, nobody has a duty left
  have hrest : (∀ thread, last.courses thread = none) → ∀ thread, duties thread = none :=
    fun hcourses thread => (hduties.hasDuty thread).eq_none (hcourses thread)
  rcases hstate with hunwon | ⟨winner, hwon⟩
  · refine .inl ⟨hunwon.toUndecided, fun hcourses thread value timeout hmem => ?_⟩
    obtain ⟨reserved, hdue⟩ := hunwon.pending thread value timeout hmem
    cases (hrest hcourses thread).symm.trans hdue
  · refine .inr ⟨winner, hwon.toDecided, ?_, fun hcourses => ?_, ?_⟩
    · exact hwon.once.imp (fun h => h.2) fun h => h.1
    · refine hwon.once.elim (fun ⟨hdue, _⟩ => ?_) fun h => h.1
      cases (hrest hcourses winner.thread).symm.trans hdue
    · intro earlier later thread hsplit htells
      exact (hwon.informed earlier later thread hsplit htells).1

end Run

/-- One map that goes by no lock. -/
def lockless : Plan 1 Unit Nat Nat where
  settings _ := { locking := .noOp }
  enumeration _ := .asStored

/-- The first thread takes its number first, but then the second one overtakes it. -/
def overtaking : List (Cue Nat Nat) :=
  [[.setsOut 0 (.ask (.putIfAbsent 5 10 .second)), .setsOut 1 (.ask (.putIfAbsent 5 20 .second)),
    .setsOut 2 (.ask (.get 5)), .goesOn 0, .goesOn 0], List.replicate 7 (.goesOn 1),
    List.replicate 7 (.goesOn 2), List.replicate 6 (.goesOn 0)].flatten

/-- The second thread has won with the later number, and all three are back. -/
theorem race_has_one_winner_overtaking :
    let reached := lockless.takeTurns 0 0 (fun _ _ _ => True)
      (.initial (.fresh (.byHand false false) false ())) overtaking
    ∃ winner, RaceWon 0 5 reached.1 reached.2 winner ∧ winner.thread = 1 ∧
      winner.entry 5 = ⟨5, 20, .second, 1, none⟩ := by
  intro reached
  have hinterleaves := lockless.interleaves_takeTurns 0 0 (fun _ _ _ => True)
    (.initial (.fresh (.byHand false false) false ())) overtaking
  -- what the interleaving comes to is evaluated, and it is not an open race
  have hdepartures : departures reached.1 =
      [(0, .ask (.putIfAbsent 5 10 .second)), (1, .ask (.putIfAbsent 5 20 .second)),
        (2, .ask (.get 5))] := rfl
  have hinsertions : insertions 0 5 reached.1 = [⟨5, 20, .second, 1, none⟩] := rfl
  have hvictors : victors reached.1 = [1] := rfl
  have hracing : ∀ thread errand, (thread, errand) ∈ departures reached.1 →
      ∃ request, errand = .ask request ∧ request.IsRacing 5 := by
    intro thread errand hmem
    rw [hdepartures] at hmem
    simp only [List.mem_cons, Prod.mk.injEq, List.not_mem_nil, or_false] at hmem
    rcases hmem with ⟨-, rfl⟩ | ⟨-, rfl⟩ | ⟨-, rfl⟩
    · exact ⟨_, rfl, .inr ⟨10, .second, rfl⟩⟩
    · exact ⟨_, rfl, .inr ⟨20, .second, rfl⟩⟩
    · exact ⟨_, rfl, .inl rfl⟩
  rcases race_has_one_winner hinterleaves rfl hracing with hopen | ⟨winner, hwon⟩
  · cases hinsertions.symm.trans hopen.insertions
  · refine ⟨winner, hwon, ?_, ?_⟩
    · rcases hwon.victors with hnobody | hvictor
      · cases hvictors.symm.trans hnobody
      · exact (List.singleton_inj.mp (hvictors.symm.trans hvictor)).symm
    · exact (List.singleton_inj.mp (hinsertions.symm.trans hwon.insertions)).symm

end ExpiringMap
