/-!
# Locks

A map takes its lock around every compound operation.  The exclusive lock lets one thread
in, as often as that thread likes; the no-op lock lets everybody in at any time.
-/

namespace ExpiringMap

/-- Which lock a map takes. -/
inductive Locking
  | exclusive
  | noOp
  /-- An exclusive lock that also writes down when it is taken and given back. -/
  | recording
deriving DecidableEq

/-- Whether a thread has to wait while another one is inside. -/
def Locking.excludes : Locking → Bool
  | exclusive | recording => true
  | noOp => false

/-- A number that tells threads apart. -/
abbrev ThreadId := Nat

/-- An exclusive lock: free, or held by a thread that has entered it once and `again` more
times. -/
inductive Lock
  | free
  | held (owner : ThreadId) (again : Nat)
deriving DecidableEq

namespace Lock

def admits : Lock → ThreadId → Bool
  | free, _ => true
  | held owner _, thread => decide (owner = thread)

def isHeldBy : Lock → ThreadId → Bool
  | free, _ => false
  | held owner _, thread => decide (owner = thread)

/-- The lock after a thread that it admits has entered. -/
def enter : Lock → ThreadId → Lock
  | free, thread => held thread 0
  | held owner again, _ => held owner (again + 1)

def leave : Lock → Lock
  | free => free
  | held _ 0 => free
  | held owner (again + 1) => held owner again

/-- A thread that enters and leaves has changed nothing. -/
@[simp] theorem leave_enter (lock : Lock) (thread : ThreadId) :
    (lock.enter thread).leave = lock := by
  cases lock <;> rfl

end Lock

/-- A lock with the threads that wait for it, in the order in which they came. -/
structure LockRoom where
  locking : Locking
  lock : Lock := .free
  waiting : List ThreadId := []

namespace LockRoom

inductive Visit
  | acquire (thread : ThreadId)
  | release (thread : ThreadId)

/-- The threads whose call has come to an end, and those that still wait. -/
structure Report where
  finished : List ThreadId
  blocked : List ThreadId

def ascending (threads : List ThreadId) : List ThreadId :=
  threads.mergeSort fun first second => decide (first ≤ second)

/-- Lets in whoever waits and is admitted, longest waiting first. -/
def admitWaiting (lock : Lock) : List ThreadId → Lock × List ThreadId × List ThreadId
  | [] => (lock, [], [])
  | thread :: rest =>
      if lock.admits thread then
        let (lock, admitted, waiting) := admitWaiting (lock.enter thread) rest
        (lock, thread :: admitted, waiting)
      else
        let (lock, admitted, waiting) := admitWaiting lock rest
        (lock, admitted, thread :: waiting)

/-- One visit.  At a no-op lock nobody waits; at an exclusive lock the one that comes while
another is inside does, until that one has left for the last time.  A thread that is not inside
has nothing to release. -/
def visit (room : LockRoom) : Visit → Report × LockRoom
  | .acquire thread =>
      if !room.locking.excludes then
        (⟨[thread], ascending room.waiting⟩, room)
      else if room.lock.admits thread then
        (⟨[thread], ascending room.waiting⟩, { room with lock := room.lock.enter thread })
      else
        let waiting := room.waiting ++ [thread]
        (⟨[], ascending waiting⟩, { room with waiting })
  | .release thread =>
      if room.locking.excludes && room.lock.isHeldBy thread then
        let (lock, admitted, waiting) := admitWaiting room.lock.leave room.waiting
        (⟨ascending (thread :: admitted), ascending waiting⟩, { room with lock, waiting })
      else
        (⟨[thread], ascending room.waiting⟩, room)

end LockRoom

end ExpiringMap
