import ExpiringMap.Misuse
import ExpiringMap.Text.Quoted
import ExpiringMap.Text.Record

/-!
# The lifecycle of a map

A map is stopped or started, and while a call of `start` or `stop` is in progress it is
starting or stopping.  A call moves the map out of the one phase it needs and fails in any
other, so two calls cannot be under way at once.
-/

namespace ExpiringMap

/-- Where a map is in its lifecycle. -/
inductive Phase
  | stopped
  | starting
  | started
  | stopping
deriving DecidableEq

/-- The two calls that move a map through its lifecycle. -/
inductive LifecycleCall
  | start
  | stop
deriving DecidableEq

namespace Phase

def code : Phase → Nat
  | stopped => 0
  | starting => 1
  | started => 2
  | stopping => 3

/-- The phase of a code. -/
def ofCode : Nat → Except Misuse Phase
  | 0 => .ok stopped
  | 1 => .ok starting
  | 2 => .ok started
  | 3 => .ok stopping
  | code => .error (.unknownPhase code)

def word : Phase → String
  | stopped => "stopped"
  | starting => "starting"
  | started => "started"
  | stopping => "stopping"

def title : Phase → String
  | stopped => "Stopped"
  | starting => "Starting"
  | started => "Started"
  | stopping => "Stopping"

/-- Whether a scheduled pass may run in this phase. -/
def allowsRuns : Phase → Bool
  | starting | started => true
  | stopped | stopping => false

@[simp] theorem ofCode_code (phase : Phase) : ofCode phase.code = .ok phase := by
  cases phase <;> rfl

end Phase

def LifecycleCall.word : LifecycleCall → String
  | start => "start"
  | stop => "stop"

/-- Why a lifecycle call failed. -/
inductive Error
  | invalidState (call : LifecycleCall) (phase : Phase)
  | schedulerShutdown
deriving DecidableEq

namespace Error

def message : Error → String
  | invalidState call phase =>
      "cannot " ++ call.word ++ " the timeout map while it is " ++ phase.word
  | schedulerShutdown => "the scheduler is shut down and cannot accept new tasks"

/-- Whether the call came at a moment that does not allow it, which is the only way to fail. -/
def isInvalidState : Error → Bool
  | invalidState .. | schedulerShutdown => true

def text : Error → String
  | invalidState call phase =>
      Text.Record.inLine
        ⟨"InvalidState",
          [("operation", .word (Text.quoted call.word)), ("state", .word phase.title)]⟩
  | schedulerShutdown => "SchedulerShutdown"

end Error

/-- Moves from the phase `source` to the phase `target`.  In any other phase the map stays
where it is and the call fails. -/
def Phase.shift (current : Phase) (call : LifecycleCall) (source target : Phase) :
    Except Error Unit × Phase :=
  if current = source then (.ok (), target) else (.error (.invalidState call current), current)

end ExpiringMap
