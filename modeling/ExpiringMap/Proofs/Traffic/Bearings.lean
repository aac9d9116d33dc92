import ExpiringMap.Proofs.Lifecycle.Position
import ExpiringMap.Proofs.Traffic.Passes

/-!
# The bearings of threads at a map

Of a thread that makes calls at a map or runs jobs three things can be told from its deeds: whether
it is inside the lock and what its pass has listed there, which job it runs, and how far it has come
with a start or a stop.  These are its bearings.  Whatever a thread does at a map, whose handles
stay, heeds the protocol of bearings (`heeds_errand`): it takes the lock when it is outside, tells
the eviction hook of nothing but what it has listed, ends no run but its own, and has to do with
jobs only as far as it is in charge of the lifecycle.
-/

namespace ExpiringMap

variable {n : Nat} {S K V α β : Type}

/-! ## Bearings -/

/-- Whether a thread is inside the lock of a map, and what it has listed there. -/
inductive Stay (K V : Type)
  | outside
  | inside
  | listed (found : List (Entry K V))
deriving DecidableEq

/-- How far a thread has come with a start or a stop. -/
inductive Charge
  | nothing
  /-- It has moved the map out of being stopped. -/
  | claim
  | scheduled (id : Nat)
  | kept (id : Nat)
  /-- It has moved the map out of being started. -/
  | leave
  | taken (id : Nat)
  | cancelled (id : Nat)
  /-- It has cancelled the job and emptied the store. -/
  | emptied
deriving DecidableEq

structure Bearing (K V : Type) where
  stay : Stay K V := .outside
  /-- The job that the thread runs. -/
  run : Option Nat := none
  charge : Charge := .nothing

def LifecycleCall.charge : LifecycleCall → Charge
  | start => .claim
  | stop => .leave

namespace Bearing

/-- Whether a thread may set the phase. -/
def Sets (charge : Charge) : Phase → Prop
  | .stopped => charge = .claim ∨ charge = .emptied
  | .started => ∃ id, charge = .kept id
  | .starting | .stopping => False

def PermitsOnMap (bearing : Bearing K V) : MapAct K V → Prop
  | .lock => bearing.stay = .outside
  | .unlock | .scan _ => bearing.stay ≠ .outside
  | .shift call source target =>
      bearing.charge = .nothing ∧ source = call.needs ∧ target = call.entry.phase
  | .setPhase phase => Sets bearing.charge phase
  | .keepJob id => bearing.charge = .scheduled id
  | .takeJob => bearing.charge = .leave
  | .clear => ∃ id, bearing.charge = .cancelled id
  | .borrow | .takeHandle => False
  | _ => True

def PermitsOnScheduler (map : Fin n) (bearing : Bearing K V) : SchedulerAct n → Prop
  | .schedule owner .. => owner = map ∧ bearing.charge = .claim
  | .cancel owner id => owner = map ∧ bearing.charge = .taken id
  | .begin _ => bearing.run = none ∧ bearing.stay = .outside
  | .finish id => bearing.run = some id
  | _ => True

def afterOnMap (bearing : Bearing K V) : (act : MapAct K V) → act.Answer → Bearing K V
  | .lock, _ => { bearing with stay := .inside }
  | .unlock, _ => { bearing with stay := .outside }
  | .scan _, found => { bearing with stay := .listed found }
  | .shift call .., .ok _ => { bearing with charge := call.charge }
  | .setPhase _, _ => { bearing with charge := .nothing }
  | .keepJob id, _ => { bearing with charge := .kept id }
  | .takeJob, some id => { bearing with charge := .taken id }
  | .clear, _ => { bearing with charge := .emptied }
  | _, _ => bearing

def afterOnScheduler (bearing : Bearing K V) : (act : SchedulerAct n) → act.Answer → Bearing K V
  | .schedule .., .ok accepted => { bearing with charge := .scheduled accepted.id }
  | .cancel _ id, _ => { bearing with charge := .cancelled id }
  | .begin id, .begun _ => { bearing with run := some id }
  | .finish _, _ => { bearing with run := none }
  | _, _ => bearing

/-- The protocol of whoever makes calls at a map or runs its jobs.  It is to be reckoned with that
the map has a handle, that the jobs that are run are its own, that it keeps a job while it is
stopped, and that no run begins of a job that the thread has cancelled. -/
def protocol (map : Fin n) : Protocol n K V (Bearing K V) where
  permits bearing
    | .map other act => other = map ∧ bearing.PermitsOnMap act
    | .scheduler act => bearing.PermitsOnScheduler map act
    | _ => True
  asks bearing _
    | .eviction key value =>
        ∃ found, bearing.stay = .listed found ∧
          ∃ entry ∈ found, entry.key = key ∧ entry.value = value
    | .screening _ => True
  expects bearing
    | .map _ .letGo, last => last = false
    | .map _ .takeJob, job => job ≠ none
    | .scheduler (.begin id), beginning => ∀ owner, beginning = .begun owner →
        owner = map ∧ bearing.charge ≠ .cancelled id
    | _, _ => True
  after bearing
    | .map _ act, answer => bearing.afterOnMap act answer
    | .scheduler act, answer => bearing.afterOnScheduler act answer
    | _, _ => bearing

/-- Acts that keep off change no bearing. -/
theorem tolerant_protocol (map : Fin n) : (protocol (K := K) (V := V) map).Tolerant := by
  intro bearing act hact
  cases act with
  | map | log => exact hact.elim
  | clock | sleep => exact ⟨trivial, fun _ _ => rfl⟩
  | scheduler act =>
      cases act with
      | shutdown | refuse => exact ⟨trivial, fun _ _ => rfl⟩
      | schedule | cancel | begin | finish | isShutdown | jobCount | isReady => exact hact.elim

end Bearing

/-! ## Operations at a map -/

namespace Operation

open Protocol

section

variable {map : Fin n} {run : Option Nat} {charge : Charge}

theorem provides_bearings :
    (Bearing.protocol (K := K) (V := V) map).Provides map ⟨.outside, run, charge⟩
      ⟨.inside, run, charge⟩ fun found => ⟨.listed found, run, charge⟩ where
  locks := ⟨⟨rfl, rfl⟩, rfl⟩
  size := ⟨⟨rfl, trivial⟩, fun _ _ => rfl⟩
  clock := ⟨trivial, fun _ _ => rfl⟩
  scans _ := ⟨⟨rfl, nofun⟩, fun _ => rfl⟩
  screens _ _ _ := trivial
  notifies found entry hentry := ⟨found, rfl, entry, hentry, rfl, rfl⟩
  removes _ _ _ := ⟨⟨rfl, trivial⟩, fun _ _ => rfl⟩
  logs _ _ _ := ⟨trivial, fun _ _ => rfl⟩
  unlocks point hpoint := by
    rcases hpoint with rfl | ⟨found, rfl⟩ <;> exact ⟨rfl, nofun⟩

theorem bears_pass :
    (Bearing.protocol map).Leads (fun _ last => last = ⟨.outside, run, charge⟩)
      (pass (K := K) (V := V) map) ⟨.outside, run, charge⟩ := by
  refine provides_bearings.leads_pass.mono ?_
  rintro _ _ ⟨point, rfl | ⟨found, rfl⟩, rfl⟩ <;> rfl

theorem bears_scheduledPass :
    (Bearing.protocol map).Leads (fun _ last => last = ⟨.outside, run, charge⟩)
      (scheduledPass (K := K) (V := V) map) ⟨.outside, run, charge⟩ := by
  -- records and the reading of the phase make no difference to the bearing
  have hlog : ∀ record, (Bearing.protocol map).Leads
      (fun _ last => last = ⟨.outside, run, charge⟩) (log (K := K) (V := V) map record)
      ⟨.outside, run, charge⟩ := fun record => ⟨trivial, fun _ _ => rfl⟩
  have hread : (Bearing.protocol map).Leads (fun _ last => last = ⟨.outside, run, charge⟩)
      (readPhase (K := K) (V := V) map) ⟨.outside, run, charge⟩ :=
    ⟨⟨rfl, trivial⟩, fun _ _ => rfl⟩
  refine hread.bind fun phase _ hphase => ?_
  rw [hphase]
  split
  · refine (hlog _).bind fun _ _ hlogged => ?_
    rw [hlogged]
    refine bears_pass.bind fun outcome _ hpassed => ?_
    rw [hpassed]
    cases outcome with
    | ok _ => rfl
    | error panic => exact hlog _
  · exact hlog _

/-- Whoever has taken the map into use for a run gives up no last hold. -/
theorem bears_task (retirement : Retirement n K V) :
    (Bearing.protocol map).Leads (fun _ last => last = ⟨.outside, run, charge⟩)
      (task retirement map) ⟨.outside, run, charge⟩ := by
  refine ⟨⟨rfl, trivial⟩, fun held _ => ?_⟩
  cases held with
  | false => rfl
  | true =>
      refine bears_scheduledPass.bind fun _ _ hpassed => ?_
      rw [hpassed]
      refine ⟨⟨rfl, trivial⟩, fun last hlast => ?_⟩
      obtain rfl : last = false := hlast
      rfl

theorem bears_runOnce (retirement : Retirement n K V) (id : Nat) :
    (Bearing.protocol map).Leads (fun _ last => last = ⟨.outside, none, charge⟩)
      (runOnce retirement id) ⟨.outside, none, charge⟩ := by
  refine ⟨⟨rfl, rfl⟩, fun beginning hbeginning => ?_⟩
  cases beginning with
  | noJob => rfl
  | busy => rfl
  | begun owner =>
      obtain ⟨rfl, -⟩ := hbeginning owner rfl
      refine (bears_task retirement).bind fun _ last hlast => ?_
      rw [hlast]
      exact ⟨rfl, fun _ _ => rfl⟩

/-- No run begins of a job that the thread has cancelled. -/
theorem bears_cancel (retirement : Retirement n K V) (id : Nat) :
    (Bearing.protocol map).Leads (fun _ last => last = ⟨.outside, none, .cancelled id⟩)
      (cancel retirement map id) ⟨.outside, none, .taken id⟩ := by
  refine ⟨⟨rfl, rfl⟩, fun runs _ => ?_⟩
  cases runs with
  | false => rfl
  | true =>
      refine ⟨⟨rfl, rfl⟩, fun beginning hbeginning => ?_⟩
      cases beginning with
      | noJob => rfl
      | busy => rfl
      | begun owner => exact absurd rfl (hbeginning owner rfl).2

variable (map)

theorem bears_start (interval : Duration) :
    (Bearing.protocol map).Leads (fun _ last => last = {}) (start (K := K) (V := V) map interval)
      {} := by
  refine ⟨⟨rfl, rfl, rfl, rfl⟩, fun shifted _ => ?_⟩
  cases shifted with
  | error error => rfl
  | ok _ =>
      refine ⟨trivial, fun shut _ => ?_⟩
      -- with the map claimed, either nothing is scheduled and the phase goes back, or a job is
      cases shut with
      | true => exact ⟨⟨rfl, .inl rfl⟩, fun _ _ => rfl⟩
      | false =>
          refine ⟨⟨rfl, rfl⟩, fun scheduled _ => ?_⟩
          cases scheduled with
          | error error => exact ⟨⟨rfl, .inl rfl⟩, fun _ _ => rfl⟩
          | ok accepted =>
              obtain ⟨id, runsAtOnce⟩ := accepted
              have hkeeping : (Bearing.protocol map).Leads (fun _ last => last = {})
                  (keeping (K := K) (V := V) map id) ⟨.outside, none, .scheduled id⟩ :=
                ⟨⟨rfl, rfl⟩, fun _ _ => ⟨⟨rfl, id, rfl⟩, fun _ _ => rfl⟩⟩
              cases runsAtOnce with
              | false => exact hkeeping
              | true =>
                  refine (bears_runOnce retire id).bind fun _ last hlast => ?_
                  rw [hlast]
                  exact hkeeping

theorem bears_stop :
    (Bearing.protocol map).Leads (fun _ last => last = {}) (stop (K := K) (V := V) map) {} := by
  refine ⟨⟨rfl, rfl, rfl, rfl⟩, fun shifted _ => ?_⟩
  cases shifted with
  | error error => rfl
  | ok _ =>
      refine ⟨⟨rfl, rfl⟩, fun job hjob => ?_⟩
      cases job with
      | none => exact absurd rfl hjob
      | some id =>
          refine (bears_cancel retire id).bind fun _ last hlast => ?_
          rw [hlast]
          refine ⟨⟨rfl, rfl⟩, fun _ _ => ⟨⟨rfl, id, rfl⟩, fun _ _ => ⟨⟨rfl, nofun⟩, fun _ _ => ?_⟩⟩⟩
          exact ⟨⟨rfl, .inr rfl⟩, fun _ _ => rfl⟩

theorem bears_awaitSize (count patience : Nat) :
    (Bearing.protocol map).Leads (fun _ last => last = {})
      (awaitSize (K := K) (V := V) map count patience) {} := by
  induction patience with
  | zero => exact ⟨⟨rfl, trivial⟩, fun _ _ => rfl⟩
  | succ patience ih =>
      refine ⟨⟨rfl, trivial⟩, fun size _ => ?_⟩
      change Leads _ _ (ite _ _ _) _
      split
      · rfl
      · exact ⟨trivial, fun _ _ => ih⟩

/-- Whatever is done under the lock without a scan, it is given back. -/
theorem bears_guarded {body : Operation n K V α} (finish : α → β)
    (hbody : body.Every ((Bearing.protocol map).Allows ⟨.inside, none, .nothing⟩)) :
    (Bearing.protocol map).Leads (fun _ last => last = {})
      ((guarded map body).bind fun result => .done (finish result)) {} := by
  have hguarded := leads_guarded provides_bearings.locks (leads_of_every hbody) fun point hpoint =>
    provides_bearings.unlocks point (.inl hpoint)
  refine hguarded.bind ?_
  rintro _ _ ⟨_, rfl, rfl⟩
  rfl

theorem bears_serveMap (settings : Settings n S K V) (request : MapRequest K V) :
    (Bearing.protocol map).Leads (fun _ last => last = {}) (serveMap settings map request) {} := by
  have hnow : (Bearing.protocol (K := K) (V := V) map).Allows ⟨.inside, none, .nothing⟩
      (.act (.clock .read)) := ⟨trivial, fun _ _ => rfl⟩
  cases request with
  -- inside the lock the four deciding acts are allowed, and they change no bearing
  | get =>
      refine bears_guarded map _ ⟨hnow, fun _ => ⟨⟨⟨rfl, trivial⟩, fun _ _ => rfl⟩, ?_⟩⟩
      exact fun _ => trivial
  | put | putIfAbsent =>
      refine bears_guarded map _ ⟨⟨⟨rfl, trivial⟩, fun _ _ => rfl⟩, fun _ => ⟨hnow, fun _ => ?_⟩⟩
      exact ⟨⟨⟨rfl, trivial⟩, fun _ _ => rfl⟩, fun _ => trivial⟩
  | remove => exact bears_guarded map _ ⟨⟨⟨rfl, trivial⟩, fun _ _ => rfl⟩, fun _ => trivial⟩
  | size | isEmpty | phase | addHandle => exact ⟨⟨rfl, trivial⟩, fun _ _ => rfl⟩
  | describe => exact ⟨⟨rfl, trivial⟩, fun _ _ => ⟨⟨rfl, trivial⟩, fun _ _ => rfl⟩⟩
  | isSchedulerShutdown => exact ⟨trivial, fun _ _ => rfl⟩
  | name | interval => rfl
  | purge =>
      refine bears_pass.bind fun _ last hlast => ?_
      exact hlast
  | start => exact (bears_start map _).bind fun _ _ hlast => hlast
  | stop => exact (bears_stop map).bind fun _ _ hlast => hlast
  | awaitSize count => exact (bears_awaitSize map count _).bind fun _ _ hlast => hlast

end

end Operation

variable [DecidableEq K]

/-- Whatever a thread does at a map for an errand, as long as hooks do not call back. -/
theorem heeds_errand {plan : Plan n S K V} (hhooks : plan.HooksKeepOff) (depth : Nat)
    (map : Fin n) (errand : Errand K V) :
    (Bearing.protocol map).Heeds plan (fun last _ => last = {}) {}
      (plan.errand depth map errand) := by
  cases errand with
  | ask request =>
      exact Protocol.heeds_access depth map (.inl ⟨hhooks, Bearing.tolerant_protocol map⟩)
        (Operation.bears_serveMap map _ request)
  | run id =>
      exact Protocol.heeds_jobRoutine hhooks (Bearing.tolerant_protocol map) depth
        (Operation.bears_runOnce _ id)

end ExpiringMap
