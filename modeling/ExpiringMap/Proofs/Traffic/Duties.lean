import ExpiringMap.Proofs.Operation.Composition
import ExpiringMap.Proofs.Pass.Listings
import ExpiringMap.Proofs.Traffic.Passes

/-!
# What threads do to the entries of a map

Whoever reads or writes a single entry has one act to do on it, and when that has been done, knows
what its request comes to; a sequence number it takes before.  Whoever makes a pass takes out
nothing but entries under keys that its scan has listed.  This is the protocol by which threads go
about such errands (`heeds_entry`, `heeds_pass`).
-/

namespace ExpiringMap

variable {n : Nat} {S K V α : Type}

/-! ## Acts that leave entries as they are -/

/-- Whether an act leaves all entries as they are, their deadlines included. -/
def MapAct.LeavesEntries : MapAct K V → Prop
  | read .. | insert .. | insertIfAbsent .. | remove _ | removeIfSame .. | clear => False
  | _ => True

theorem MapAct.LeavesEntries.lookup [DecidableEq K] {act : MapAct K V} (h : act.LeavesEntries)
    (state : MapState K V) (key : K) :
    (act.apply state).store.lookup key = state.store.lookup key := by
  cases act with
  | read | insert | insertIfAbsent | remove | removeIfSame | clear => exact h.elim
  | borrow | hold | takeHandle =>
      simp only [apply]
      split <;> rfl
  | lock | unlock | reserve | scan | size | readPhase | setPhase | shift | keepJob | takeJob
  | letGo | addHandle => rfl

theorem MapAct.OfService.leavesEntries {act : MapAct K V} (h : act.OfService) :
    act.LeavesEntries := by
  cases act <;> first | exact h | trivial

/-! ## Duties -/

namespace MapRequest

/-- The key of a request for a single entry. -/
def key? : MapRequest K V → Option K
  | get key | put key _ _ | putIfAbsent key _ _ | remove key => some key
  | _ => none

/-- Whether this is the act on an entry for which a request is made, given the sequence number that
has been taken for it. -/
def Decides (reserved : Option Nat) : MapRequest K V → MapAct K V → Prop
  | get key, act => ∃ now, act = .read key now
  | put key value timeout, act =>
      ∃ seq now, reserved = some seq ∧ act = .insert { key, value, timeout, seq } now
  | putIfAbsent key value timeout, act =>
      ∃ seq now, reserved = some seq ∧ act = .insertIfAbsent { key, value, timeout, seq } now
  | remove key, act => act = .remove key
  | _, _ => False

end MapRequest

/-- What a thread still has to do to the entries of a map. -/
inductive Duty (K V : Type)
  /-- The act on the entry for which a request is made; a sequence number may have been taken. -/
  | due (request : MapRequest K V) (reserved : Option Nat)
  /-- Nothing, since that act has been done and answered. -/
  | answered (request : MapRequest K V) (value : Option V)
  /-- To take out entries that a pass has listed. -/
  | passing (found : List (Entry K V))

namespace Duty

def Permits : Duty K V → MapAct K V → Prop
  | due request reserved, act => act.LeavesEntries ∨ request.Decides reserved act
  | answered .., act => act.LeavesEntries
  | passing found, act =>
      act.LeavesEntries ∨ ∃ entry ∈ found, act = .removeIfSame entry.key entry.seq

def after : Duty K V → (act : MapAct K V) → act.Answer → Duty K V
  | due request _, .reserve, seq => due request (some seq)
  | due request _, .read .., value | due request _, .insert .., value
  | due request _, .insertIfAbsent .., value | due request _, .remove _, value =>
      answered request value
  | passing _, .scan _, found => passing found
  | duty, _, _ => duty

/-- Whether an errand is finished with these outcomes. -/
def Ends : Duty K V → List (Outcome (Answer V)) → Prop
  | due .., _ => False
  | answered _ value, outcomes => outcomes = [.ok (.value value)]
  | passing _, _ => True

/-- The request for a single entry that a thread is about. -/
def request? : Duty K V → Option (MapRequest K V)
  | due request _ | answered request _ => some request
  | passing _ => none

@[simp] theorem request?_after (duty : Duty K V) (act : MapAct K V) (answer : act.Answer) :
    (duty.after act answer).request? = duty.request? := by
  cases duty <;> cases act <;> rfl

/-- The protocol of whoever has something to do to the entries of a map. -/
def protocol (map : Fin n) : Protocol n K V (Duty K V) where
  permits duty
    | .map other act => other = map → duty.Permits act
    | _ => True
  after duty
    | .map other act, answer => if other = map then duty.after act answer else duty
    | _, _ => duty

/-- Acts that keep off are no matter of duties. -/
theorem tolerant_protocol (map : Fin n) : (protocol (K := K) (V := V) map).Tolerant := by
  intro duty act hact
  cases act with
  | map | log => exact hact.elim
  | clock | scheduler | sleep => exact ⟨trivial, fun _ _ => rfl⟩

end Duty

/-! ## Single entries -/

namespace Operation

open Protocol

variable (settings : Settings n S K V) (map : Fin n)

/-- A request for a single entry consults nobody. -/
theorem isAct_serveMap {request : MapRequest K V} {key : K} (hkey : request.key? = some key) :
    (serveMap settings map request).Every Step.IsAct := by
  have hguarded : ∀ {body : Operation n K V (Option V)}, body.Every Step.IsAct →
      ((guarded map body).bind fun value => .done (.ok (.value value)) :
        Operation n K V (Outcome (Answer V))).Every Step.IsAct :=
    fun hbody => Program.every_bind (every_guarded trivial trivial hbody) fun _ => trivial
  cases request with
  | get => exact hguarded ⟨trivial, fun _ => ⟨trivial, fun _ => trivial⟩⟩
  | put | putIfAbsent =>
      exact hguarded ⟨trivial, fun _ => ⟨trivial, fun _ => ⟨trivial, fun _ => trivial⟩⟩⟩
  | remove => exact hguarded ⟨trivial, fun _ => trivial⟩
  | size | isEmpty | purge | start | stop | phase | name | interval | isSchedulerShutdown | describe
  | addHandle | awaitSize => cases hkey

variable {map} in
/-- An act on the map that a duty permits comes first. -/
theorem leads_act {duty : Duty K V} {act : MapAct K V} {next : act.Answer → Operation n K V α}
    {post : α → Duty K V → Prop} (hpermits : duty.Permits act)
    (hnext : ∀ answer, (Duty.protocol map).Leads post (next answer) (duty.after act answer)) :
    (Duty.protocol map).Leads post (.act (.act (.map map act)) next) duty := by
  refine ⟨fun _ => hpermits, fun answer _ => ?_⟩
  simpa only [Duty.protocol, if_true] using hnext answer

/-- Whoever asks for a single entry does one act on it, and is given what that is answered. -/
theorem leads_entry {request : MapRequest K V} {key : K} (hkey : request.key? = some key) :
    (Duty.protocol map).Leads (fun outcome last => last.Ends [outcome])
      (serveMap settings map request) (.due request none) := by
  -- each of the four does one thing that decides it, between a lock and its unlock
  cases request with
  | get =>
      refine leads_act (.inl trivial) fun _ => ⟨trivial, fun now _ => ?_⟩
      exact leads_act (.inr ⟨now, rfl⟩) fun _ => leads_act trivial fun _ => rfl
  | put | putIfAbsent =>
      refine leads_act (.inl trivial) fun _ => leads_act (.inl trivial) fun seq => ?_
      refine ⟨trivial, fun now _ => leads_act (.inr ⟨seq, now, rfl, rfl⟩) fun _ => ?_⟩
      exact leads_act trivial fun _ => rfl
  | remove =>
      refine leads_act (.inl trivial) fun _ => leads_act (.inr rfl) fun _ => ?_
      exact leads_act trivial fun _ => rfl
  | size | isEmpty | purge | start | stop | phase | name | interval | isSchedulerShutdown | describe
  | addHandle | awaitSize => cases hkey

/-! ## Passes -/

section Passes

variable {map}

/-- In the middle of a pass every step is allowed that neither looks for entries nor changes any. -/
theorem allows_passing {found : List (Entry K V)} {step : Step n K V}
    (hstep : ∀ other act, step = .act (.map other act) → act.LeavesEntries ∧ ¬ step.IsScan) :
    (Duty.protocol map).Allows (.passing found) step := by
  cases step with
  | consult other hook => trivial
  | act act =>
      cases act with
      | map other act =>
          obtain ⟨hleaves, hscan⟩ := hstep other act rfl
          refine ⟨fun _ => .inl hleaves, fun answer _ => ?_⟩
          simp only [Duty.protocol]
          split
          · -- of what leaves the entries alone only a scan would give the pass another list
            cases act with
            | scan now => exact absurd trivial hscan
            | _ => rfl
          · rfl
      | clock | scheduler | log | sleep => exact ⟨trivial, fun _ _ => rfl⟩

theorem leads_quiet (other : Fin n) (act : MapAct K V) {found : List (Entry K V)}
    (hleaves : act.LeavesEntries) (hscan : ¬ (Step.act (.map other act)).IsScan) :
    (Duty.protocol map).Leads (fun _ last => last = .passing found) (onMap other act)
      (.passing found) := by
  refine leads_of_every ⟨allows_passing fun _ _ heq => ?_, fun _ => trivial⟩
  cases heq
  exact ⟨hleaves, hscan⟩

theorem leads_log (other : Fin n) (found : List (Entry K V)) (record : LogRecord) :
    (Duty.protocol map).Leads (fun _ last => last = .passing found) (log other record)
      (.passing found) :=
  leads_of_every ⟨allows_passing nofun, fun _ => trivial⟩

/-- Whoever has scanned the map goes by what that has listed. -/
theorem provides_pass (other : Fin n) (found : List (Entry K V)) :
    (Duty.protocol map).Provides other (.passing found) (.passing found)
      fun listed => .passing (if other = map then listed else found) where
  locks := ⟨fun _ => .inl trivial, by simp only [Duty.protocol]; split <;> rfl⟩
  size := allows_passing fun _ _ heq => by cases heq; exact ⟨trivial, nofun⟩
  clock := allows_passing nofun
  scans now := by
    refine ⟨fun _ => .inl trivial, fun listed => ?_⟩
    -- only the scan of this map is what the pass goes by
    by_cases heq : other = map <;> simp [Duty.protocol, Duty.after, heq]
  screens _ _ _ := trivial
  notifies _ _ _ := trivial
  removes listed entry hentry := by
    refine ⟨fun heq => .inr ⟨entry, ?_, rfl⟩, fun _ _ => ?_⟩
    · rwa [if_pos heq]
    · simp only [Duty.protocol]
      split <;> rfl
  logs point hpoint record := by
    rcases hpoint with rfl | ⟨listed, rfl⟩ <;> exact allows_passing nofun
  unlocks point hpoint := by
    rcases hpoint with rfl | ⟨listed, rfl⟩ <;> exact fun _ => .inl trivial

/-- A pass takes out nothing but entries that its scan has listed. -/
theorem leads_pass (other : Fin n) (found : List (Entry K V)) :
    (Duty.protocol map).Leads (fun _ last => ∃ found, last = .passing found) (pass other)
      (.passing found) := by
  refine (provides_pass other found).leads_pass.mono ?_
  rintro _ _ ⟨point, hpoint, rfl⟩
  have hstays : ∀ listed, ∃ found, (Duty.protocol map).after (.passing listed)
      (.map other .unlock) () = (.passing found : Duty K V) := by
    intro listed
    refine ⟨listed, ?_⟩
    simp only [Duty.protocol]
    split <;> rfl
  rcases hpoint with rfl | ⟨listed, rfl⟩ <;> exact hstays _

theorem leads_service {step : Step n K V} (hstep : step.OfService) (found : List (Entry K V)) :
    (Duty.protocol map).Leads (fun _ last => last = .passing found) (.act step .done)
      (.passing found) := by
  refine leads_of_every ⟨allows_passing fun other act heq => ?_, fun _ => trivial⟩
  subst heq
  exact ⟨MapAct.OfService.leavesEntries hstep, by cases act <;> first | exact hstep.elim | exact id⟩

theorem leads_scheduledPass (other : Fin n) (found : List (Entry K V)) :
    (Duty.protocol map).Leads (fun _ last => ∃ found, last = .passing found) (scheduledPass other)
      (.passing found) := by
  refine (leads_quiet other .readPhase trivial nofun).bind fun phase _ hread => hread ▸ ?_
  split
  · refine (leads_log other found _).bind fun _ _ hlogged => hlogged ▸ ?_
    refine (leads_pass other found).bind fun outcome _ ⟨found, hpassed⟩ => hpassed ▸ ?_
    cases outcome with
    | ok _ => exact ⟨found, rfl⟩
    | error panic =>
        exact (leads_log other found _).mono fun _ _ hlogged => ⟨found, hlogged⟩
  · exact (leads_log other found _).mono fun _ _ hlogged => ⟨found, hlogged⟩

/-- Whatever is done for a run of a job, nothing is taken out but what a scan has listed. -/
theorem leads_runJob (id : Nat) (found : List (Entry K V)) :
    (Duty.protocol map).Leads (fun _ last => ∃ found, last = .passing found)
      (runJob (K := K) (V := V) id) (.passing found) := by
  have hcomposes : ComposesRuns fun _ (operation : Operation n K V _) => ∀ found,
      (Duty.protocol map).Leads (fun _ last => ∃ found, last = .passing found) operation
        (.passing found) := {
    done := fun _ found => ⟨found, rfl⟩
    step := fun step hstep _ found =>
      (leads_service hstep found).mono fun _ _ hlast => ⟨found, hlast⟩
    bind := fun h hnext found => (h found).bind fun result _ ⟨found, hlast⟩ =>
      hlast ▸ hnext result found
    scheduledPass := leads_scheduledPass }
  exact hcomposes.runJob id found

end Passes

end Operation

/-! ## Errands -/

namespace Errand

/-- Whether an errand is to make a pass, asked for or scheduled. -/
def IsPass : Errand K V → Prop
  | ask request => request = .purge
  | run _ => True

/-- The request of an errand, if that is about a single entry. -/
def request? : Errand K V → Option (MapRequest K V)
  | ask request => if request.key?.isSome then some request else none
  | run _ => none

/-- The key of an errand that is about a single entry. -/
def key? (errand : Errand K V) : Option K := errand.request?.bind MapRequest.key?

theorem request?_eq_some {errand : Errand K V} {request : MapRequest K V} :
    errand.request? = some request ↔ errand = .ask request ∧ ∃ key, request.key? = some key := by
  cases errand with
  | run id => simp [request?]
  | ask asked =>
      simp only [request?, ask.injEq, ← Option.isSome_iff_exists, Option.ite_none_right_eq_some,
        Option.some.injEq]
      exact ⟨fun ⟨hkey, heq⟩ => ⟨heq, heq ▸ hkey⟩, fun ⟨heq, hkey⟩ => ⟨heq ▸ hkey, heq⟩⟩

theorem IsPass.request? {errand : Errand K V} (h : errand.IsPass) : errand.request? = none := by
  cases errand with
  | run id => rfl
  | ask request =>
      obtain rfl : request = .purge := h
      rfl

/-- What there is to do to the entries for an errand. -/
def duty (errand : Errand K V) : Duty K V :=
  match errand.request? with
  | some request => .due request none
  | none => .passing []

@[simp] theorem request?_duty (errand : Errand K V) : errand.duty.request? = errand.request? := by
  unfold duty
  split
  · next h => exact h.symm
  · next h => exact h.symm

end Errand

section Heeding

variable [DecidableEq K] (plan : Plan n S K V) (depth : Nat) (map : Fin n)

/-- Threads that read or write single entries do their duty, whatever else hooks do. -/
theorem heeds_entry {errand : Errand K V} {request : MapRequest K V}
    (hrequest : errand.request? = some request) :
    (Duty.protocol map).Heeds plan Duty.Ends errand.duty (plan.errand depth map errand) := by
  rw [Errand.duty, hrequest]
  obtain ⟨rfl, key, hkey⟩ := Errand.request?_eq_some.mp hrequest
  exact Protocol.heeds_access depth map (.inr (Operation.isAct_serveMap _ map hkey))
    (Operation.leads_entry _ map hkey)

variable {plan}

/-- Threads that make passes do their duty, as long as hooks do not call back. -/
theorem heeds_pass (hhooks : plan.HooksKeepOff) {errand : Errand K V} (hpass : errand.IsPass) :
    (Duty.protocol map).Heeds plan Duty.Ends errand.duty (plan.errand depth map errand) := by
  rw [Errand.duty, hpass.request?]
  cases errand with
  | ask request =>
      obtain rfl : request = .purge := hpass
      refine Protocol.heeds_access depth map (.inl ⟨hhooks, Duty.tolerant_protocol map⟩) ?_
      exact (Operation.leads_pass map []).bind fun _ _ ⟨_, hlast⟩ => hlast ▸ trivial
  | run id =>
      refine Protocol.heeds_jobRoutine hhooks (Duty.tolerant_protocol map) depth ?_
      exact (Operation.leads_runJob id []).mono fun _ _ ⟨_, hlast⟩ => hlast ▸ trivial

end Heeding

/-! ## Threads with duties -/

namespace Duty

variable {map : Fin n}

/-- Acts on the map are what duties are about, and no other deeds. -/
theorem afterDeed_of_ne {deed : Deed n S K V} (hdeed : ∀ done, deed ≠ .act (.map map done))
    (duty : Duty K V) (answer : deed.Answer) :
    (protocol map).afterDeed duty deed answer = duty := by
  cases deed with
  | act act =>
      cases act with
      | map other done =>
          have hne : ¬ other = map := fun heq => hdeed done (by rw [heq])
          simp [Protocol.afterDeed, protocol, hne]
      | clock | scheduler | log | sleep => rfl
  | enter | resume | leave | gather => rfl

theorem afterDeed_map (duty : Duty K V) (act : MapAct K V) (answer : act.Answer) :
    (protocol map).afterDeed duty (.act (.map map act) : Deed n S K V) answer =
      duty.after act answer := by
  simp [Protocol.afterDeed, protocol]

theorem permits_of_permitsDeed {duty : Duty K V} {act : MapAct K V}
    (h : (protocol map).PermitsDeed duty (.act (.map map act) : Deed n S K V)) : duty.Permits act :=
  h rfl

@[simp] theorem request?_afterDeed (duty : Duty K V) (deed : Deed n S K V) (answer : deed.Answer) :
    ((protocol map).afterDeed duty deed answer).request? = duty.request? := by
  by_cases hdeed : ∃ done, deed = .act (.map map done)
  · obtain ⟨act, rfl⟩ := hdeed
    rw [afterDeed_map, request?_after]
  · rw [afterDeed_of_ne fun done heq => hdeed ⟨done, heq⟩]

end Duty

section Having

variable [DecidableEq K] {plan : Plan n S K V} {depth : Nat} {map : Fin n}
  {traffic : Traffic n S K V} {thread : ThreadId} {duty : Duty K V} {errand : Errand K V}

/-- Whether a thread is at rest, or about an errand with that duty. -/
def Traffic.HasDuty (traffic : Traffic n S K V) (plan : Plan n S K V) (map : Fin n)
    (thread : ThreadId) : Option (Duty K V) → Prop
  | none => traffic.courses thread = none
  | some duty => ∃ errand routine, traffic.courses thread = some (errand, routine) ∧
      duty.request? = errand.request? ∧ (Duty.protocol map).Heeds plan Duty.Ends duty routine

namespace Traffic.HasDuty

theorem congr {later : Traffic n S K V} {duty : Option (Duty K V)}
    (h : traffic.HasDuty plan map thread duty)
    (hcourse : later.courses thread = traffic.courses thread) :
    later.HasDuty plan map thread duty := by
  cases duty with
  | none => exact hcourse.trans h
  | some duty => simpa only [Traffic.HasDuty, hcourse] using h

/-- A thread that is at rest has no duty. -/
theorem eq_none {duty : Option (Duty K V)} (h : traffic.HasDuty plan map thread duty)
    (hcourse : traffic.courses thread = none) : duty = none := by
  cases duty with
  | none => rfl
  | some duty =>
      obtain ⟨_, _, hcourse', -⟩ := h
      cases hcourse.symm.trans hcourse'

theorem exists_eq_some {duty : Option (Duty K V)} (h : traffic.HasDuty plan map thread duty)
    {course : Errand K V × Routine n S K V} (hcourse : traffic.courses thread = some course) :
    ∃ due, duty = some due := by
  cases duty with
  | none => cases h.symm.trans hcourse
  | some due => exact ⟨due, rfl⟩

theorem setsOut (hheeds : (Duty.protocol map).Heeds plan Duty.Ends errand.duty
      (plan.errand depth map errand)) :
    (traffic.setCourse thread (some (errand, plan.errand depth map errand))).HasDuty plan map thread
      (some errand.duty) :=
  ⟨errand, _, courses_setCourse_self .., errand.request?_duty, hheeds⟩

theorem of_course (h : traffic.HasDuty plan map thread (some duty)) {routine : Routine n S K V}
    (hcourse : traffic.courses thread = some (errand, routine)) :
    duty.request? = errand.request? ∧ (Duty.protocol map).Heeds plan Duty.Ends duty routine := by
  obtain ⟨_, _, hcourse', hrequest, hheeds⟩ := h
  obtain ⟨rfl, rfl⟩ := Prod.mk.inj (Option.some.inj (hcourse'.symm.trans hcourse))
  exact ⟨hrequest, hheeds⟩

/-- A thread does what its duty permits, and then it has the duty to which that leads. -/
theorem does (h : traffic.HasDuty plan map thread (some duty)) {deed : Deed n S K V}
    {next : deed.Answer → Routine n S K V}
    (hcourse : traffic.courses thread = some (errand, .step deed next)) :
    (Duty.protocol map).PermitsDeed duty deed ∧
      ((traffic.withStage (traffic.stage.perform plan thread deed).2).setCourse thread
        (some (errand, next (traffic.stage.perform plan thread deed).1))).HasDuty plan map thread
        (some ((Duty.protocol map).afterDeed duty deed
          (traffic.stage.perform plan thread deed).1)) := by
  obtain ⟨hrequest, hheeds⟩ := h.of_course hcourse
  refine ⟨hheeds.permits, errand, _, courses_setCourse_self .., ?_, hheeds.does _ ?_⟩
  · rw [Duty.request?_afterDeed, hrequest]
  · cases deed <;> trivial

end Traffic.HasDuty

end Having

end ExpiringMap
