import ExpiringMap.Program

/-!
# The acts of a program, one by one

`Program.run` gives what a program comes to; `Program.trace` also keeps how it gets there: every
act that the program itself performs, with its answer and the states before and after it.  What
happens within an act, such as the whole run of a hook that is consulted, is a single entry of
the trace, so statements on "what the program does itself" are statements on its trace.
-/

namespace ExpiringMap.Program

variable {A : Type} {R : A → Type} {α β σ : Type}

/-- An act that a program performed. -/
structure Moment (A : Type) (R : A → Type) (σ : Type) where
  act : A
  answer : R act
  before : σ
  after : σ

/-- The acts that a program performs when it is run through, the first one first. -/
def trace (respond : (a : A) → σ → R a × σ) : Program A R α → σ → List (Moment A R σ)
  | .done _, _ => []
  | .act a next, state =>
      let (answer, after) := respond a state
      ⟨a, answer, state, after⟩ :: (next answer).trace respond after

/-- The state after some acts that were performed from `state` on. -/
def reached (state : σ) (moments : List (Moment A R σ)) : σ :=
  moments.foldl (fun _ moment => moment.after) state

section Trace

variable (respond : (a : A) → σ → R a × σ)

@[simp] theorem trace_done (result : α) (state : σ) :
    (Program.done result : Program A R α).trace respond state = [] := rfl

@[simp] theorem trace_act (a : A) (next : R a → Program A R α) (state : σ) :
    (Program.act a next).trace respond state =
      ⟨a, (respond a state).1, state, (respond a state).2⟩ ::
        (next (respond a state).1).trace respond (respond a state).2 := rfl

@[simp] theorem trace_bind (program : Program A R α) (next : α → Program A R β) (state : σ) :
    (program.bind next).trace respond state =
      program.trace respond state ++
        (next (program.run respond state).1).trace respond (program.run respond state).2 := by
  induction program generalizing state with
  | done result => rfl
  | act a rest ih => simp [ih]

/-- The last act leaves what the program leaves. -/
@[simp] theorem reached_trace (program : Program A R α) (state : σ) :
    reached state (program.trace respond state) = (program.run respond state).2 := by
  induction program generalizing state with
  | done result => rfl
  | act a rest ih => exact ih _ _

/-- Acts reach the state in which the last of them left things, if there are any. -/
theorem reached_cases (state : σ) (moments : List (Moment A R σ)) :
    reached state moments = state ∨ ∃ moment ∈ moments, reached state moments = moment.after := by
  induction moments generalizing state with
  | nil => exact .inl rfl
  | cons first rest ih =>
      rcases ih first.after with heq | ⟨moment, hmoment, heq⟩
      · exact .inr ⟨first, List.mem_cons_self .., heq⟩
      · exact .inr ⟨moment, List.mem_cons_of_mem _ hmoment, heq⟩

/-- What a moment of a trace records is how its act was answered. -/
theorem respond_of_mem_trace {program : Program A R α} {state : σ} {moment : Moment A R σ}
    (h : moment ∈ program.trace respond state) :
    respond moment.act moment.before = (moment.answer, moment.after) := by
  induction program generalizing state with
  | done result => simp at h
  | act a rest ih =>
      rcases List.mem_cons.mp h with rfl | h
      · rfl
      · exact ih _ h

/-- An act of a trace finds the state that the program was given or that an earlier act left. -/
theorem before_of_mem_trace {program : Program A R α} {state : σ} {moment : Moment A R σ}
    (h : moment ∈ program.trace respond state) :
    moment.before = state ∨
      ∃ earlier ∈ program.trace respond state, moment.before = earlier.after := by
  induction program generalizing state with
  | done result => simp at h
  | act a rest ih =>
      rcases List.mem_cons.mp h with rfl | h
      · exact .inl rfl
      · refine .inr ?_
        rcases ih _ h with heq | ⟨earlier, hearlier, heq⟩
        · exact ⟨_, List.mem_cons_self .., heq⟩
        · exact ⟨earlier, List.mem_cons_of_mem _ hearlier, heq⟩

/-- A relation that holds across every act of a trace holds across the program. -/
theorem run_of_trace (lasts : σ → σ → Prop) (hrefl : ∀ state, lasts state state)
    (htrans : ∀ {first second third}, lasts first second → lasts second third → lasts first third)
    (program : Program A R α) {state : σ}
    (h : ∀ moment ∈ program.trace respond state, lasts moment.before moment.after) :
    lasts state (program.run respond state).2 := by
  induction program generalizing state with
  | done result => exact hrefl state
  | act a rest ih =>
      have hfirst := h _ (List.mem_cons_self ..)
      exact htrans hfirst (ih _ fun moment hmoment => h moment (List.mem_cons_of_mem _ hmoment))

/-- What no act of a trace changes, the program leaves as it was. -/
theorem run_eq_of_trace (view : σ → β) (program : Program A R α) {state : σ}
    (h : ∀ moment ∈ program.trace respond state, view moment.after = view moment.before) :
    view (program.run respond state).2 = view state :=
  run_of_trace respond (fun earlier later => view later = view earlier) (fun _ => rfl)
    (fun h h' => h'.trans h) program h

/-- What no act of a trace changes, every act finds as it was. -/
theorem before_eq_of_trace (view : σ → β) (program : Program A R α) {state : σ}
    (h : ∀ moment ∈ program.trace respond state, view moment.after = view moment.before) :
    ∀ moment ∈ program.trace respond state, view moment.before = view state := by
  induction program generalizing state with
  | done result => simp
  | act a rest ih =>
      have hfirst := h _ (List.mem_cons_self ..)
      intro moment hmoment
      rcases List.mem_cons.mp hmoment with rfl | hmoment
      · rfl
      · exact (ih _ (fun later hlater => h later (List.mem_cons_of_mem _ hlater)) moment
          hmoment).trans hfirst

/-- What every act of a trace keeps holds at all of its acts, and in the end. -/
theorem holds_of_trace {holds : σ → Prop} (program : Program A R α) {state : σ}
    (hstate : holds state)
    (h : ∀ moment ∈ program.trace respond state, holds moment.before → holds moment.after) :
    holds (program.run respond state).2 ∧
      ∀ moment ∈ program.trace respond state, holds moment.before ∧ holds moment.after := by
  induction program generalizing state with
  | done result => exact ⟨hstate, by simp⟩
  | act a rest ih =>
      have hfirst : holds (respond a state).2 := h _ (List.mem_cons_self ..) hstate
      obtain ⟨hlast, hlater⟩ := ih _ hfirst fun moment hmoment =>
        h moment (List.mem_cons_of_mem _ hmoment)
      refine ⟨hlast, fun moment hmoment => ?_⟩
      rcases List.mem_cons.mp hmoment with rfl | hmoment
      · exact ⟨hstate, hfirst⟩
      · exact hlater moment hmoment

/-- A relation that holds across every act of a trace holds from the beginning to each act. -/
theorem before_of_trace (lasts : σ → σ → Prop) (hrefl : ∀ state, lasts state state)
    (htrans : ∀ {first second third}, lasts first second → lasts second third → lasts first third)
    (program : Program A R α) {state : σ}
    (h : ∀ moment ∈ program.trace respond state, lasts moment.before moment.after) :
    ∀ moment ∈ program.trace respond state, lasts state moment.before := by
  induction program generalizing state with
  | done result => simp
  | act a rest ih =>
      obtain ⟨hfirst, hrest⟩ := List.forall_mem_cons.mp h
      intro moment hmoment
      rcases List.mem_cons.mp hmoment with rfl | hmoment
      · exact hrefl state
      · exact htrans hfirst (ih _ hrest moment hmoment)

/-- A relation that holds across every act of a trace holds from each act to the end. -/
theorem after_of_trace (lasts : σ → σ → Prop) (hrefl : ∀ state, lasts state state)
    (htrans : ∀ {first second third}, lasts first second → lasts second third → lasts first third)
    (program : Program A R α) {state : σ}
    (h : ∀ moment ∈ program.trace respond state, lasts moment.before moment.after) :
    ∀ moment ∈ program.trace respond state,
      lasts moment.after (program.run respond state).2 := by
  induction program generalizing state with
  | done result => simp
  | act a rest ih =>
      obtain ⟨-, hrest⟩ := List.forall_mem_cons.mp h
      intro moment hmoment
      rcases List.mem_cons.mp hmoment with rfl | hmoment
      · exact run_of_trace respond lasts hrefl htrans _ hrest
      · exact ih _ hrest moment hmoment

/-- A relation that holds across every act of a trace holds from each act to every later one. -/
theorem pairwise_of_trace (lasts : σ → σ → Prop) (hrefl : ∀ state, lasts state state)
    (htrans : ∀ {first second third}, lasts first second → lasts second third → lasts first third)
    (program : Program A R α) {state : σ}
    (h : ∀ moment ∈ program.trace respond state, lasts moment.before moment.after) :
    (program.trace respond state).Pairwise fun earlier later =>
      lasts earlier.after later.before := by
  induction program generalizing state with
  | done result => exact .nil
  | act a rest ih =>
      obtain ⟨-, hrest⟩ := List.forall_mem_cons.mp h
      exact List.pairwise_cons.mpr
        ⟨before_of_trace respond lasts hrefl htrans _ hrest, ih _ hrest⟩

end Trace

/-! ## Acts that a program may perform -/

/-- Whether all acts of a program are allowed, however they are answered. -/
def Every (allowed : A → Prop) : Program A R α → Prop
  | .done _ => True
  | .act a next => allowed a ∧ ∀ answer, (next answer).Every allowed

variable {allowed : A → Prop}

theorem every_bind {program : Program A R α} {next : α → Program A R β}
    (hprogram : program.Every allowed) (hnext : ∀ result, (next result).Every allowed) :
    (program.bind next).Every allowed := by
  induction program with
  | done result => exact hnext result
  | act a rest ih => exact ⟨hprogram.1, fun answer => ih answer (hprogram.2 answer)⟩

theorem Every.mono {other : A → Prop} {program : Program A R α} (h : program.Every allowed)
    (himplies : ∀ a, allowed a → other a) : program.Every other := by
  induction program with
  | done result => trivial
  | act a rest ih => exact ⟨himplies a h.1, fun answer => ih answer (h.2 answer)⟩

theorem Every.of_mem_trace {respond : (a : A) → σ → R a × σ} {program : Program A R α}
    {state : σ} {moment : Moment A R σ} (h : program.Every allowed)
    (hmoment : moment ∈ program.trace respond state) : allowed moment.act := by
  induction program generalizing state with
  | done result => simp at hmoment
  | act a rest ih =>
      rcases List.mem_cons.mp hmoment with rfl | hmoment
      · exact h.1
      · exact ih _ (h.2 _) hmoment

/-! ## Relations that last -/

/-- Whether a relation holds between the state that a program finds and every state from then on,
up to the one it leaves. -/
def Maintains (respond : (a : A) → σ → R a × σ) (lasts : σ → σ → Prop)
    (program : Program A R α) : Prop :=
  ∀ state, lasts state (program.run respond state).2 ∧
    ∀ moment ∈ program.trace respond state, lasts state moment.after

variable {respond : (a : A) → σ → R a × σ} {lasts : σ → σ → Prop}

theorem maintains_bind
    (htrans : ∀ {first second third}, lasts first second → lasts second third → lasts first third)
    {program : Program A R α} {next : α → Program A R β}
    (hprogram : program.Maintains respond lasts)
    (hnext : ∀ result, (next result).Maintains respond lasts) :
    (program.bind next).Maintains respond lasts := by
  intro state
  have ⟨hfirst, hearlier⟩ := hprogram state
  have ⟨hlast, hlater⟩ := hnext (program.run respond state).1 (program.run respond state).2
  rw [run_bind, trace_bind]
  refine ⟨htrans hfirst hlast, fun moment hmoment => ?_⟩
  rcases List.mem_append.mp hmoment with hmoment | hmoment
  · exact hearlier moment hmoment
  · exact htrans hfirst (hlater moment hmoment)

/-- What lasts through a program lasts through its first part. -/
theorem Maintains.of_bind (hrefl : ∀ state, lasts state state) {program : Program A R α}
    {next : α → Program A R β} (h : (program.bind next).Maintains respond lasts) (state : σ) :
    lasts state (program.run respond state).2 := by
  have hreached := reached_trace respond program state
  rcases reached_cases state (program.trace respond state) with heq | ⟨moment, hmoment, heq⟩
  · rw [← hreached, heq]
    exact hrefl state
  · rw [← hreached, heq]
    refine (h state).2 moment ?_
    rw [trace_bind]
    exact List.mem_append_left _ hmoment

theorem maintains_done (hrefl : ∀ state, lasts state state) (result : α) :
    (Program.done result : Program A R α).Maintains respond lasts :=
  fun state => ⟨hrefl state, by simp⟩

theorem maintains_act {a : A} (h : ∀ state, lasts state (respond a state).2) :
    (Program.act a .done : Program A R (R a)).Maintains respond lasts := by
  refine fun state => ⟨h state, fun moment hmoment => ?_⟩
  rw [List.mem_singleton.mp hmoment]
  exact h state

/-- What every act maintains, programs maintain. -/
theorem maintains_of_respond (hrefl : ∀ state, lasts state state)
    (htrans : ∀ {first second third}, lasts first second → lasts second third → lasts first third)
    (h : ∀ a state, lasts state (respond a state).2) (program : Program A R α) :
    program.Maintains respond lasts := by
  induction program with
  | done result => exact maintains_done hrefl result
  | act a rest ih =>
      show ((Program.act a .done).bind rest).Maintains respond lasts
      exact maintains_bind (@htrans) (maintains_act (h a)) ih

/-- What every act that a program may perform maintains, the program maintains. -/
theorem Every.maintains (hrefl : ∀ state, lasts state state)
    (htrans : ∀ {first second third}, lasts first second → lasts second third → lasts first third)
    {program : Program A R α} (h : program.Every allowed)
    (hallowed : ∀ a, allowed a → ∀ state, lasts state (respond a state).2) :
    program.Maintains respond lasts := by
  induction program with
  | done result => exact maintains_done hrefl result
  | act a rest ih =>
      show ((Program.act a .done).bind rest).Maintains respond lasts
      exact maintains_bind (@htrans) (maintains_act (hallowed a h.1)) fun answer =>
        ih answer (h.2 answer)

/-- What lasts through a program has lasted so far at each of its acts. -/
theorem Maintains.before (hrefl : ∀ state, lasts state state) {program : Program A R α}
    (h : program.Maintains respond lasts) {state : σ} {moment : Moment A R σ}
    (hmoment : moment ∈ program.trace respond state) : lasts state moment.before := by
  rcases before_of_mem_trace respond hmoment with heq | ⟨earlier, hearlier, heq⟩
  · exact heq ▸ hrefl state
  · exact heq ▸ (h state).2 earlier hearlier

/-! ## What holds throughout -/

/-- Whether something holds after every act of a program, and in the end. -/
def Throughout (respond : (a : A) → σ → R a × σ) (holds : σ → Prop) (program : Program A R α)
    (state : σ) : Prop :=
  holds (program.run respond state).2 ∧ ∀ moment ∈ program.trace respond state, holds moment.after

section Throughout

variable {holds weaker : σ → Prop} {program : Program A R α} {state : σ}

theorem throughout_done {result : α} (h : holds state) :
    (Program.done result : Program A R α).Throughout respond holds state :=
  ⟨h, by simp⟩

theorem throughout_act {a : A} {next : R a → Program A R α} (h : holds (respond a state).2)
    (hnext : (next (respond a state).1).Throughout respond holds (respond a state).2) :
    (Program.act a next).Throughout respond holds state :=
  ⟨hnext.1, List.forall_mem_cons.mpr ⟨h, hnext.2⟩⟩

theorem throughout_bind {next : α → Program A R β} (h : program.Throughout respond holds state)
    (hnext : (next (program.run respond state).1).Throughout respond holds
      (program.run respond state).2) :
    (program.bind next).Throughout respond holds state := by
  rw [Throughout, run_bind, trace_bind]
  exact ⟨hnext.1, List.forall_mem_append.mpr ⟨h.2, hnext.2⟩⟩

theorem Throughout.mono (h : program.Throughout respond holds state)
    (himplies : ∀ state, holds state → weaker state) :
    program.Throughout respond weaker state :=
  ⟨himplies _ h.1, fun moment hmoment => himplies _ (h.2 moment hmoment)⟩

end Throughout

/-! ## What a program comes to -/

/-- Whether `post` holds of the result of a program, of the acts that it performs and of the state
that it leaves. -/
def Ends (respond : (a : A) → σ → R a × σ) (post : α → List (Moment A R σ) → σ → Prop)
    (program : Program A R α) (state : σ) : Prop :=
  post (program.run respond state).1 (program.trace respond state)
    (program.run respond state).2

section Ends

variable {respond : (a : A) → σ → R a × σ} {state : σ}

theorem ends_done {post : α → List (Moment A R σ) → σ → Prop} {result : α} :
    (Program.done result : Program A R α).Ends respond post state ↔ post result [] state :=
  Iff.rfl

theorem ends_act {post : α → List (Moment A R σ) → σ → Prop} {a : A}
    {next : R a → Program A R α} :
    (Program.act a next).Ends respond post state ↔
      (next (respond a state).1).Ends respond (fun result moments last =>
        post result (⟨a, (respond a state).1, state, (respond a state).2⟩ :: moments) last)
        (respond a state).2 :=
  Iff.rfl

theorem ends_bind {post : β → List (Moment A R σ) → σ → Prop} {program : Program A R α}
    {next : α → Program A R β} :
    (program.bind next).Ends respond post state ↔
      program.Ends respond (fun result earlier between =>
        (next result).Ends respond (fun last later state => post last (earlier ++ later) state)
          between) state := by
  simp only [Ends, run_bind, trace_bind]

theorem Ends.mono {post weaker : α → List (Moment A R σ) → σ → Prop} {program : Program A R α}
    (h : program.Ends respond post state)
    (himplies : ∀ result moments last, post result moments last → weaker result moments last) :
    program.Ends respond weaker state :=
  himplies _ _ _ h

end Ends

end ExpiringMap.Program
