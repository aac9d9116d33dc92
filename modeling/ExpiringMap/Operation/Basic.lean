import ExpiringMap.Deployment

/-!
# Operations, and the acts they are made of

An operation is a program whose steps are the acts of a deployment and consultations of
hooks.  Each of them has a one-line operation here that performs it and gives its answer.
-/

namespace ExpiringMap

/-- The steps of operations. -/
inductive Step (n : Nat) (K V : Type)
  | act (act : Act n K V)
  | consult (map : Fin n) (hook : Hook K V)

@[reducible]
def Step.Answer {n : Nat} {K V : Type} : Step n K V → Type
  | act done => done.Answer
  | consult .. => Outcome Bool

/-- What is done with `n` maps, step by step. -/
abbrev Operation (n : Nat) (K V α : Type) := Program (Step n K V) Step.Answer α

namespace Operation

variable {n : Nat} {K V α : Type}

def onMap (map : Fin n) (act : MapAct K V) : Operation n K V act.Answer :=
  .act (.act (.map map act)) .done

def onClock (act : ClockAct) : Operation n K V Instant := .act (.act (.clock act)) .done

def onScheduler (act : SchedulerAct n) : Operation n K V act.Answer :=
  .act (.act (.scheduler act)) .done

/-! ## Acts on a map -/

def lock (map : Fin n) : Operation n K V Unit := onMap map .lock

def unlock (map : Fin n) : Operation n K V Unit := onMap map .unlock

def reserve (map : Fin n) : Operation n K V Nat := onMap map .reserve

def read (map : Fin n) (key : K) (now : Instant) : Operation n K V (Option V) :=
  onMap map (.read key now)

def insert (map : Fin n) (entry : Entry K V) (now : Instant) : Operation n K V (Option V) :=
  onMap map (.insert entry now)

def insertIfAbsent (map : Fin n) (entry : Entry K V) (now : Instant) :
    Operation n K V (Option V) :=
  onMap map (.insertIfAbsent entry now)

def erase (map : Fin n) (key : K) : Operation n K V (Option V) := onMap map (.remove key)

def removeIfSame (map : Fin n) (key : K) (seq : Nat) : Operation n K V Bool :=
  onMap map (.removeIfSame key seq)

def scan (map : Fin n) (now : Instant) : Operation n K V (List (Entry K V)) :=
  onMap map (.scan now)

def size (map : Fin n) : Operation n K V Nat := onMap map .size

def clear (map : Fin n) : Operation n K V Unit := onMap map .clear

def readPhase (map : Fin n) : Operation n K V Phase := onMap map .readPhase

def setPhase (map : Fin n) (phase : Phase) : Operation n K V Unit :=
  onMap map (.setPhase phase)

def shift (map : Fin n) (call : LifecycleCall) (source target : Phase) :
    Operation n K V (Except Error Unit) :=
  onMap map (.shift call source target)

def keepJob (map : Fin n) (id : Nat) : Operation n K V Unit := onMap map (.keepJob id)

def takeJob (map : Fin n) : Operation n K V (Option Nat) := onMap map .takeJob

def borrow (map : Fin n) : Operation n K V Bool := onMap map .borrow

def hold (map : Fin n) : Operation n K V Bool := onMap map .hold

def letGo (map : Fin n) : Operation n K V Bool := onMap map .letGo

def addHandle (map : Fin n) : Operation n K V Unit := onMap map .addHandle

def takeHandle (map : Fin n) : Operation n K V Bool := onMap map .takeHandle

def consult (map : Fin n) (hook : Hook K V) : Operation n K V (Outcome Bool) :=
  .act (.consult map hook) .done

def log (map : Fin n) (record : LogRecord) : Operation n K V Unit :=
  .act (.act (.log map record)) .done

def sleep (ns : Nat) : Operation n K V Unit := .act (.act (.sleep ns)) .done

/-! ## Acts on the clock -/

def now : Operation n K V Instant := onClock .read

def advance (ns : Nat) : Operation n K V Instant := onClock (.advance ns)

def rewind (ns : Nat) : Operation n K V Instant := onClock (.rewind ns)

/-! ## Acts on the scheduler -/

def isShutdown : Operation n K V Bool := onScheduler .isShutdown

def shutdown : Operation n K V Unit := onScheduler .shutdown

def refuse (error : Option Error) : Operation n K V Unit := onScheduler (.refuse error)

def schedule (owner : Fin n) (initialDelay delay : Duration) :
    Operation n K V (Except Error Accepted) :=
  onScheduler (.schedule owner initialDelay delay)

/-- Marks a job as cancelled that a map gives up. -/
def markCancelled (map : Fin n) (id : Nat) : Operation n K V Bool := onScheduler (.cancel map id)

def beginRun (id : Nat) : Operation n K V (Beginning n) := onScheduler (.begin id)

def finishRun (id : Nat) : Operation n K V Unit := onScheduler (.finish id)

def jobCount : Operation n K V Nat := onScheduler .jobCount

def isReady (id : Nat) : Operation n K V Bool := onScheduler (.isReady id)

/-! ## Under the lock -/

/-- Does something under the lock of a map.  What is done may end in a panic, which is a
result like any other here; the lock is given back all the same. -/
def guarded (map : Fin n) (body : Operation n K V α) : Operation n K V α := do
  lock map
  let result ← body
  unlock map
  return result

end Operation

end ExpiringMap
