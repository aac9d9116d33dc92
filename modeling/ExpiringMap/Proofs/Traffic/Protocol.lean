import ExpiringMap.Proofs.Operation.Moments
import ExpiringMap.Proofs.Traffic.Interleaving

/-!
# Protocols

What a thread may do next, and how it may have been answered before, is the same whatever other
threads do meanwhile.  A protocol says this much of an operation: at each of its points it permits
some acts and asks some hooks, and every answer to such an act leads on to a point.  That an
operation keeps to a protocol is shown step by step, without a look at any deployment
(`Protocol.Leads`), and as long as hooks do not call back, what a thread does for the
operation heeds the protocol, too (`heeds_unfold`).  So if a protocol begins and ends at the same
point, and all errands heed it, the history of an interleaving tells to which point each thread has
come (`Protocol.point`).
-/

namespace ExpiringMap

variable {n : Nat} {S K V σ α β : Type}

/-- Which acts are permitted at a point, which answers to them are to be reckoned with, and to which
point they lead.  Hooks that may be asked at a point lead nowhere else. -/
structure Protocol (n : Nat) (K V σ : Type) where
  permits : σ → Act n K V → Prop
  asks : σ → Fin n → Hook K V → Prop := fun _ _ _ => True
  expects : σ → (act : Act n K V) → act.Answer → Prop := fun _ _ _ => True
  after : σ → (act : Act n K V) → act.Answer → σ

namespace Protocol

/-! ## Operations that keep to a protocol -/

/-- Whether an operation that begins at a point keeps to a protocol, and what holds of its result
and of the point to which it leads. -/
def Leads (protocol : Protocol n K V σ) (post : α → σ → Prop) : Operation n K V α → σ → Prop
  | .done result, point => post result point
  | .act (.act act) rest, point =>
      protocol.permits point act ∧ ∀ answer, protocol.expects point act answer →
        Leads protocol post (rest answer) (protocol.after point act answer)
  | .act (.consult map hook) rest, point =>
      protocol.asks point map hook ∧ ∀ verdict, Leads protocol post (rest verdict) point

/-- Whether a step is permitted at a point and leads nowhere else. -/
def Allows (protocol : Protocol n K V σ) (point : σ) : Step n K V → Prop
  | .act act => protocol.permits point act ∧
      ∀ answer, protocol.expects point act answer → protocol.after point act answer = point
  | .consult map hook => protocol.asks point map hook

variable {protocol : Protocol n K V σ} {point : σ}

theorem leads_bind {post : β → σ → Prop} {operation : Operation n K V α}
    {next : α → Operation n K V β} :
    protocol.Leads post (operation.bind next) point ↔
      protocol.Leads (fun result last => protocol.Leads post (next result) last) operation
        point := by
  induction operation generalizing point with
  | done result => exact Iff.rfl
  | act step rest ih =>
      cases step with
      | act act => simp only [Program.act_bind, Leads, ih]
      | consult map hook => simp only [Program.act_bind, Leads, ih]

theorem Leads.mono {post weaker : α → σ → Prop} {operation : Operation n K V α}
    (h : protocol.Leads post operation point)
    (himplies : ∀ result last, post result last → weaker result last) :
    protocol.Leads weaker operation point := by
  induction operation generalizing point with
  | done result => exact himplies result point h
  | act step rest ih =>
      cases step with
      | act act => exact ⟨h.1, fun answer hanswer => ih answer (h.2 answer hanswer)⟩
      | consult map hook => exact ⟨h.1, fun verdict => ih verdict (h.2 verdict)⟩

/-- One operation after another. -/
theorem Leads.bind {between : α → σ → Prop} {post : β → σ → Prop} {operation : Operation n K V α}
    {next : α → Operation n K V β} (h : protocol.Leads between operation point)
    (hnext : ∀ result last, between result last → protocol.Leads post (next result) last) :
    protocol.Leads post (operation.bind next) point :=
  leads_bind.mpr (h.mono hnext)

/-- An operation all of whose steps are allowed at a point leads nowhere else. -/
theorem leads_of_every {operation : Operation n K V α}
    (h : operation.Every (protocol.Allows point)) :
    protocol.Leads (fun _ last => last = point) operation point := by
  induction operation with
  | done result => rfl
  | act step rest ih =>
      cases step with
      | act act =>
          obtain ⟨⟨hpermits, hafter⟩, hrest⟩ := h
          refine ⟨hpermits, fun answer hanswer => ?_⟩
          rw [hafter answer hanswer]
          exact ih answer (hrest answer)
      | consult map hook => exact ⟨h.1, fun verdict => ih verdict (h.2 verdict)⟩

/-! ## Routines that heed a protocol -/

/-- Whether a routine that has come to a point of a protocol keeps to the protocol from then on, and
comes to an end only with outcomes that fit the point it has come to. -/
inductive Heeds [DecidableEq K] (protocol : Protocol n K V σ) (plan : Plan n S K V)
    (ends : σ → List (Outcome (Answer V)) → Prop) : σ → Routine n S K V → Prop
  | done {point : σ} {outcomes : List (Outcome (Answer V))} :
      ends point outcomes → Heeds protocol plan ends point (.done outcomes)
  | act {point : σ} {act : Act n K V} {next : act.Answer → Routine n S K V} :
      protocol.permits point act →
      (∀ answer, protocol.expects point act answer →
        Heeds protocol plan ends (protocol.after point act answer) (next answer)) →
      Heeds protocol plan ends point (.step (.act act) next)
  | enter {point : σ} {map : Fin n} {hook : Hook K V}
      {next : Option (Script n S K V) → Routine n S K V} :
      protocol.asks point map hook →
      (∀ deployment, Heeds protocol plan ends point (next (plan.enter deployment map hook).1)) →
      Heeds protocol plan ends point (.step (.enter map hook) next)
  | resume {point : σ} {map : Fin n} {call : Call n K V} {outcome : Outcome (Answer V)}
      {remember : S → S} {next : S → Routine n S K V} :
      (∀ memory, Heeds protocol plan ends point (next memory)) →
      Heeds protocol plan ends point (.step (.resume map call outcome remember) next)
  | leave {point : σ} {map : Fin n} {hook : Hook K V} {verdict : Outcome Bool}
      {next : Unit → Routine n S K V} :
      Heeds protocol plan ends point (next ()) →
      Heeds protocol plan ends point (.step (.leave map hook verdict) next)

/-- Whether a deed is permitted at a point; hooks go on and are left at any point. -/
def PermitsDeed (protocol : Protocol n K V σ) (point : σ) : Deed n S K V → Prop
  | .act act => protocol.permits point act
  | .enter map hook => protocol.asks point map hook
  | .resume .. | .leave .. => True
  | .gather => False

def ExpectsDeed (protocol : Protocol n K V σ) (point : σ) :
    (deed : Deed n S K V) → deed.Answer → Prop
  | .act act, answer => protocol.expects point act answer
  | _, _ => True

/-- The point to which a deed leads. -/
def afterDeed (protocol : Protocol n K V σ) (point : σ) : (deed : Deed n S K V) → deed.Answer → σ
  | .act act, answer => protocol.after point act answer
  | _, _ => point

section

variable [DecidableEq K] {plan : Plan n S K V} {ends : σ → List (Outcome (Answer V)) → Prop}
  {deed : Deed n S K V} {next : deed.Answer → Routine n S K V}

theorem Heeds.permits (h : protocol.Heeds plan ends point (.step deed next)) :
    protocol.PermitsDeed point deed := by
  cases h with
  | act hpermits _ => exact hpermits
  | enter hasks _ => exact hasks
  | resume _ | leave _ => trivial

theorem Heeds.does (h : protocol.Heeds plan ends point (.step deed next))
    (deployment : Deployment n S K V)
    (hexpects : protocol.ExpectsDeed point deed (plan.perform deed deployment).1) :
    protocol.Heeds plan ends (protocol.afterDeed point deed (plan.perform deed deployment).1)
      (next (plan.perform deed deployment).1) := by
  cases h with
  | act _ hnext => exact hnext _ hexpects
  | enter _ hnext => exact hnext deployment
  | resume hnext => exact hnext _
  | leave hnext => exact hnext

theorem Heeds.of_done {outcomes : List (Outcome (Answer V))}
    (h : protocol.Heeds plan ends point (.done outcomes)) : ends point outcomes := by
  cases h with
  | done hends => exact hends

end

end Protocol

/-- Deeds that are no acts on a map leave it as it is. -/
theorem Plan.state_perform [DecidableEq K] (plan : Plan n S K V) {deed : Deed n S K V}
    {map : Fin n} (hdeed : ∀ done, deed ≠ .act (.map map done)) (deployment : Deployment n S K V) :
    (plan.perform deed deployment).2.state map = deployment.state map := by
  cases deed with
  | act act =>
      cases act with
      | map other done =>
          have hne : map ≠ other := fun heq => hdeed done (by rw [heq])
          simp [perform, Deployment.perform, hne]
      | clock | scheduler | log | sleep => rfl
  | enter other hook => exact (deployment.aside_enter plan other hook).state map
  | resume | leave | gather => rfl

/-! ## Hooks that keep off -/

/-- Whether a request is neither made at a map nor runs a job: it waits a while, moves the clock or
turns to the scheduler. -/
def Request.KeepsOff : Request K V → Prop
  | advance _ | rewind _ | sleep _ | shutdown | refuse _ => True
  | map _ | dropHandle | runJob _ | tick => False

def Call.KeepsOff : Call n K V → Prop
  | ask _ request => request.KeepsOff
  | together .. => False

/-- Whether a script calls back to no map, whatever it does before it answers. -/
def Script.KeepsOff : Script n S K V → Prop
  | answer _ => True
  | call made _ next => made.KeepsOff ∧ ∀ outcome memory, (next outcome memory).KeepsOff

/-- Whether hooks do not call back. -/
def Plan.HooksKeepOff (plan : Plan n S K V) : Prop :=
  ∀ map hook reaction, (plan.settings map).policy.reaction? hook = some reaction →
    ∀ memory, (reaction hook memory).2.KeepsOff

theorem Plan.HooksKeepOff.enter {plan : Plan n S K V} (h : plan.HooksKeepOff)
    (deployment : Deployment n S K V) (map : Fin n) (hook : Hook K V) :
    ∀ script ∈ (plan.enter deployment map hook).1, script.KeepsOff := by
  unfold Plan.enter
  split
  · exact nofun
  · next reaction hreaction =>
    rintro script ⟨⟩
    exact h map hook reaction hreaction deployment.memory

/-- One map that goes by no lock and whose eviction hook says yes. -/
def Plan.agreeing : Plan 1 Unit Nat Nat where
  settings _ := {
    locking := .noOp
    policy := .listener fun _ memory => (memory, .answer (.ok true)) }
  enumeration _ := .asStored

theorem Plan.hooksKeepOff_agreeing : agreeing.HooksKeepOff := by
  intro map hook reaction hreaction memory
  cases hook with
  | screening entry => cases hreaction
  | eviction key value =>
      obtain rfl := Option.some.inj hreaction
      trivial

/-- The acts that are done for requests that keep off. -/
def Act.KeepsOff : Act n K V → Prop
  | clock _ | sleep _ | scheduler .shutdown | scheduler (.refuse _) => True
  | map .. | scheduler _ | log .. => False

theorem Request.KeepsOff.exists_act {request : Request K V} (h : request.KeepsOff)
    (settings : Settings n S K V) (map : Fin n) :
    ∃ act : Act n K V, act.KeepsOff ∧ ∃ finish : act.Answer → Outcome (Answer V),
      Operation.serve settings map request =
        .act (.act act) fun answer => .done (finish answer) := by
  cases request with
  | advance | rewind | sleep | shutdown | refuse => exact ⟨_, by trivial, _, rfl⟩
  | map | dropHandle | runJob | tick => exact h.elim

namespace Protocol

/-- Whether acts that keep off are allowed at all points. -/
def Tolerant (protocol : Protocol n K V σ) : Prop :=
  ∀ point, ∀ act : Act n K V, act.KeepsOff → protocol.Allows point (.act act)

variable [DecidableEq K] {protocol : Protocol n K V σ} {plan : Plan n S K V} {point : σ}
  {ends : σ → List (Outcome (Answer V)) → Prop}

/-- A hook that does not call back leads nowhere else. -/
theorem heeds_script (depth : Nat) (htolerant : protocol.Tolerant) {script : Script n S K V}
    (hscript : script.KeepsOff) (map : Fin n) {next : Outcome Bool → Routine n S K V}
    (hnext : ∀ verdict, protocol.Heeds plan ends point (next verdict)) :
    protocol.Heeds plan ends point (plan.scripts depth map script next) := by
  cases depth with
  | zero => exact hnext _
  | succ depth =>
      induction script with
      | answer verdict => exact hnext verdict
      | call made remember rest ih =>
          obtain ⟨hmade, hrest⟩ := hscript
          cases made with
          | together => exact hmade.elim
          | ask path request =>
              obtain ⟨act, hact, finish, heq⟩ :=
                hmade.exists_act (plan.settings (path.last map)) (path.last map)
              obtain ⟨hpermits, hafter⟩ := htolerant point act hact
              show protocol.Heeds plan ends point (Operation.unfold (plan.scripts depth)
                (Operation.serve (plan.settings (path.last map)) (path.last map) request) _)
              rw [heq]
              refine .act hpermits fun answer hanswer => .resume fun memory => ?_
              -- a request that keeps off leaves the point where it is, whatever it is answered
              rw [hafter answer hanswer]
              exact ih _ memory (hrest _ memory)

/-- What a thread does for an operation that keeps to a protocol heeds the protocol, unless hooks
are consulted that call back. -/
theorem heeds_unfold (depth : Nat) {post : α → σ → Prop} {operation : Operation n K V α}
    (hhooks : plan.HooksKeepOff ∧ protocol.Tolerant ∨ operation.Every Step.IsAct)
    (h : protocol.Leads post operation point) {next : α → Routine n S K V}
    (hnext : ∀ result last, post result last → protocol.Heeds plan ends last (next result)) :
    protocol.Heeds plan ends point (Operation.unfold (plan.scripts depth) operation next) := by
  induction operation generalizing point with
  | done result => exact hnext result point h
  | act step rest ih =>
      have hrest : ∀ answer,
          plan.HooksKeepOff ∧ protocol.Tolerant ∨ (rest answer).Every Step.IsAct :=
        fun answer => hhooks.imp_right fun hevery => hevery.2 answer
      cases step with
      | act act =>
          exact .act h.1 fun answer hanswer => ih answer (hrest answer) (h.2 answer hanswer)
      -- only hooks that keep off are consulted, unless no step is a consultation
      | consult map hook =>
          have hkeepOff := hhooks.resolve_right fun hevery => hevery.1
          refine .enter h.1 fun deployment => ?_
          have hscript := hkeepOff.1.enter deployment map hook
          generalize (plan.enter deployment map hook).1 = entered at hscript
          rcases entered with _ | script
          · exact ih _ (.inl hkeepOff) (h.2 _)
          · exact heeds_script depth hkeepOff.2 (hscript script rfl) map fun verdict =>
              .leave (ih verdict (.inl hkeepOff) (h.2 verdict))

/-- What a thread does for a request heeds a protocol to which the request keeps. -/
theorem heeds_access (depth : Nat) (map : Fin n) {request : MapRequest K V}
    (hhooks : plan.HooksKeepOff ∧ protocol.Tolerant ∨
      (Operation.serveMap (plan.settings map) map request).Every Step.IsAct)
    (h : protocol.Leads (fun outcome last => ends last [outcome])
      (Operation.serveMap (plan.settings map) map request) point) :
    protocol.Heeds plan ends point (plan.access depth map request) :=
  heeds_unfold depth hhooks h fun _ _ hends => .done hends

theorem heeds_jobRoutine (hhooks : plan.HooksKeepOff) (htolerant : protocol.Tolerant)
    (depth : Nat) {id : Nat}
    (h : protocol.Leads (fun _ last => ends last []) (Operation.runJob id) point) :
    protocol.Heeds plan ends point (plan.jobRoutine depth id) :=
  heeds_unfold depth (.inl ⟨hhooks, htolerant⟩) h fun _ _ hends => .done hends

end Protocol

/-! ## Threads that heed a protocol -/

namespace Protocol

variable (protocol : Protocol n K V σ) (start : σ) (thread : ThreadId)

/-- The point to which a thread has come, which is at `start` whenever it is at rest. -/
def point (history : List (Happening n S K V)) : σ :=
  history.foldl
    (fun point happening =>
      match happening with
      | .does other deed answer =>
          if other = thread then protocol.afterDeed point deed answer else point
      | .setsOut .. | .returns .. => point)
    start

variable (history : List (Happening n S K V))

@[simp] theorem point_nil : protocol.point start thread ([] : List (Happening n S K V)) = start :=
  rfl

@[simp] theorem point_setsOut (other : ThreadId) (errand : Errand K V) :
    protocol.point start thread (history ++ [.setsOut other errand]) =
      protocol.point start thread history := by
  simp [point]

@[simp] theorem point_returns (other : ThreadId) (errand : Errand K V)
    (outcomes : List (Outcome (Answer V))) :
    protocol.point start thread (history ++ [.returns other errand outcomes]) =
      protocol.point start thread history := by
  simp [point]

@[simp] theorem point_does_self (deed : Deed n S K V) (answer : deed.Answer) :
    protocol.point start thread (history ++ [.does thread deed answer]) =
      protocol.afterDeed (protocol.point start thread history) deed answer := by
  simp [point]

theorem point_does_of_ne {thread other : ThreadId} (hne : other ≠ thread) (deed : Deed n S K V)
    (answer : deed.Answer) :
    protocol.point start thread (history ++ [.does other deed answer]) =
      protocol.point start thread history := by
  simp [point, hne]

variable [DecidableEq K] (plan : Plan n S K V) (traffic : Traffic n S K V)

/-- Whether all threads heed a protocol that begins and ends at the same point. -/
structure Heeded : Prop where
  rests : ∀ thread, traffic.courses thread = none → protocol.point start thread history = start
  heeds : ∀ thread errand routine, traffic.courses thread = some (errand, routine) →
    protocol.Heeds plan (fun last _ => last = start) (protocol.point start thread history) routine

variable {protocol start thread history plan traffic} {depth : Nat} {map : Fin n}
  {admits : Admission n S K V} {happened : List (Happening n S K V)} {last : Traffic n S K V}

theorem Heeded.permits (h : protocol.Heeded start history plan traffic) {errand : Errand K V}
    {deed : Deed n S K V} {next : deed.Answer → Routine n S K V}
    (hcourse : traffic.courses thread = some (errand, .step deed next)) :
    protocol.PermitsDeed (protocol.point start thread history) deed :=
  (h.heeds thread errand _ hcourse).permits

/-- One thread has moved, and nothing has become of the others. -/
theorem Heeded.update (h : protocol.Heeded start history plan traffic) (mover : ThreadId)
    (hcourses : ∀ other, other ≠ mover → last.courses other = traffic.courses other)
    (hpoints : ∀ other, other ≠ mover →
      protocol.point start other (history ++ happened) = protocol.point start other history)
    (hrests : last.courses mover = none →
      protocol.point start mover (history ++ happened) = start)
    (hheeds : ∀ errand routine, last.courses mover = some (errand, routine) →
      protocol.Heeds plan (fun last _ => last = start)
        (protocol.point start mover (history ++ happened)) routine) :
    protocol.Heeded start (history ++ happened) plan last := by
  constructor
  · intro other hrest
    by_cases heq : other = mover
    · rw [heq] at hrest ⊢
      exact hrests hrest
    · rw [hpoints other heq]
      exact h.rests other (hcourses other heq ▸ hrest)
  · -- whoever is under way heeds the protocol from its point on
    intro other errand routine hcourse
    by_cases heq : other = mover
    · rw [heq] at hcourse ⊢
      exact hheeds errand routine hcourse
    · rw [hpoints other heq]
      exact h.heeds other errand routine (hcourses other heq ▸ hcourse)

/-- As long as threads set out only on errands that heed the protocol, and are answered as is to be
reckoned with, they go on to heed it. -/
theorem Heeded.move (h : protocol.Heeded start history plan traffic)
    (hmove : plan.Moves depth map admits traffic happened last)
    (herrands : ∀ thread errand, (thread, errand) ∈ departures happened →
      protocol.Heeds plan (fun last _ => last = start) start (plan.errand depth map errand))
    (hexpects : ∀ thread deed answer, .does thread deed answer ∈ happened →
      protocol.ExpectsDeed (protocol.point start thread history) deed answer) :
    protocol.Heeded start (history ++ happened) plan last := by
  cases hmove with
  -- the mover was at rest, and its errand heeds the protocol from the start
  | setsOut mover errand hcourse =>
      refine h.update mover (fun other => traffic.courses_setCourse_of_ne _)
        (fun _ _ => point_setsOut ..) (by simp) fun other routine hother => ?_
      rw [Traffic.courses_setCourse_self, Option.some.injEq, Prod.mk.injEq] at hother
      obtain ⟨rfl, rfl⟩ := hother
      rw [point_setsOut, h.rests mover hcourse]
      exact herrands mover errand (by simp)
  | does mover hcourse _ =>
      refine h.update mover (fun other => Traffic.courses_setCourse_of_ne _ _)
        (fun other hne => point_does_of_ne _ _ _ (Ne.symm hne) _ _) (by simp)
        fun other routine hother => ?_
      rw [Traffic.courses_setCourse_self, Option.some.injEq, Prod.mk.injEq] at hother
      obtain ⟨rfl, rfl⟩ := hother
      rw [point_does_self]
      exact (h.heeds mover _ _ hcourse).does traffic.stage.deployment
        (hexpects mover _ (traffic.stage.perform plan mover _).1 (List.mem_singleton_self _))
  -- the mover has come to its end, where it has to be back at the start
  | returns mover hcourse =>
      refine h.update mover (fun other => traffic.courses_setCourse_of_ne _)
        (fun _ _ => point_returns ..) (fun _ => ?_) (by simp)
      rw [point_returns]
      exact (h.heeds mover _ _ hcourse).of_done
  | clockMoves act =>
      rw [List.append_nil]
      exact ⟨h.rests, h.heeds⟩

end Protocol

end ExpiringMap
