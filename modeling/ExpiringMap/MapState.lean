import ExpiringMap.Phase
import ExpiringMap.Store

/-!
# The state of one map, and the acts that touch nothing else

Beside its store a map has a phase, the job that its latest start scheduled, and the number
of those that hold it: handles in the hands of callers, and uses by calls and runs that are
in progress.  A map that nobody holds is gone for good, since a new handle comes from an old
one and a use from a handle or from a map that is still held.
-/

namespace ExpiringMap

/-- How a scan of a store lists what it finds.  A store has no order of its own, so each
scan may list the same entries in another order. -/
structure Enumeration (K V : Type) where
  arrange : Nat → List (Entry K V) → List (Entry K V)
  perm : ∀ scan entries, (arrange scan entries).Perm entries

/-- The enumeration that lists entries as they lie. -/
def Enumeration.asStored {K V : Type} : Enumeration K V :=
  ⟨fun _ entries => entries, fun _ _ => .rfl⟩

/-- One map at one moment. -/
structure MapState (K V : Type) where
  store : Store K V := .empty
  phase : Phase := .stopped
  /-- The job that stops when the map does. -/
  job : Option Nat := none
  handles : Nat := 1
  /-- Calls and runs in progress, each of which holds the map until it ends. -/
  uses : Nat := 0
  /-- How often the lock is held. -/
  guards : Nat := 0
  /-- How many scans of the store there have been. -/
  scans : Nat := 0

/-- Acts on a single map. -/
inductive MapAct (K V : Type)
  | lock
  | unlock
  | reserve
  | read (key : K) (now : Instant)
  /-- Put the entry in, its countdown started at `now`. -/
  | insert (entry : Entry K V) (now : Instant)
  | insertIfAbsent (entry : Entry K V) (now : Instant)
  | remove (key : K)
  | removeIfSame (key : K) (seq : Nat)
  | scan (now : Instant)
  | size
  | clear
  | readPhase
  | setPhase (phase : Phase)
  | shift (call : LifecycleCall) (source target : Phase)
  | keepJob (id : Nat)
  | takeJob
  /-- Take a use through a handle, if there is one. -/
  | borrow
  /-- Take a use of a map that is not gone yet. -/
  | hold
  /-- Give up a use; the answer tells whether it was the last hold on the map. -/
  | letGo
  | addHandle
  /-- Turn the last handle into a use, if there is one. -/
  | takeHandle

@[reducible]
def MapAct.Answer {K V : Type} : MapAct K V → Type
  | lock | unlock | clear | setPhase _ | keepJob _ | addHandle => Unit
  | reserve | size => Nat
  | read .. | insert .. | insertIfAbsent .. | remove _ => Option V
  | removeIfSame .. => Bool
  | scan _ => List (Entry K V)
  | readPhase => Phase
  | shift .. => Except Error Unit
  | takeJob => Option Nat
  | borrow | hold | letGo | takeHandle => Bool

/-- How an entry leaves a store. -/
inductive Departure
  | replaced
  | removed
  | evicted
  | cleared
deriving DecidableEq

inductive MapEvent (K V : Type)
  | locked
  | unlocked
  /-- An entry comes into the store, its countdown started at `now`. -/
  | placed (entry : Entry K V) (now : Instant)
  /-- An entry is read, its countdown started again at `now`. -/
  | touched (entry : Entry K V) (now : Instant)
  | left (entry : Entry K V) (departure : Departure)
  | numbered (seq : Nat)
  | entered (phase : Phase)
  | keptJob (id : Nat)

namespace MapState

variable {K V : Type}

def isHeld (state : MapState K V) : Bool := decide (0 < state.handles + state.uses)

def hasHandle (state : MapState K V) : Bool := decide (0 < state.handles)

end MapState

namespace MapAct

variable {K V : Type} [DecidableEq K]

def answer (enumeration : Enumeration K V) (state : MapState K V) :
    (act : MapAct K V) → act.Answer
  | lock | unlock | clear | setPhase _ | keepJob _ | addHandle => ()
  | reserve => state.store.reserve.1
  | read key now => (state.store.read key now).1
  | insert entry now => (state.store.insert (entry.touch now)).1
  | insertIfAbsent entry now => (state.store.insertIfAbsent (entry.touch now)).1
  | remove key => (state.store.remove key).1
  | removeIfSame key seq => (state.store.removeIfSame key seq).1
  | scan now => enumeration.arrange state.scans (state.store.expired now)
  | size => state.store.size
  | readPhase => state.phase
  | shift call source target => (state.phase.shift call source target).1
  | takeJob => state.job
  | borrow => state.hasHandle
  | hold => state.isHeld
  | letGo => decide (state.handles + (state.uses - 1) = 0)
  | takeHandle => state.hasHandle

def apply (state : MapState K V) : MapAct K V → MapState K V
  | lock => { state with guards := state.guards + 1 }
  | unlock => { state with guards := state.guards - 1 }
  | reserve => { state with store := state.store.reserve.2 }
  | read key now => { state with store := (state.store.read key now).2 }
  | insert entry now => { state with store := (state.store.insert (entry.touch now)).2 }
  | insertIfAbsent entry now =>
      { state with store := (state.store.insertIfAbsent (entry.touch now)).2 }
  | remove key => { state with store := (state.store.remove key).2 }
  | removeIfSame key seq => { state with store := (state.store.removeIfSame key seq).2 }
  | scan _ => { state with scans := state.scans + 1 }
  | size | readPhase => state
  | clear => { state with store := state.store.clear }
  | setPhase phase => { state with phase }
  | shift call source target => { state with phase := (state.phase.shift call source target).2 }
  | keepJob id => { state with job := some id }
  | takeJob => { state with job := none }
  | borrow => if state.hasHandle then { state with uses := state.uses + 1 } else state
  | hold => if state.isHeld then { state with uses := state.uses + 1 } else state
  | letGo => { state with uses := state.uses - 1 }
  | addHandle => { state with handles := state.handles + 1 }
  | takeHandle =>
      if state.hasHandle then
        { state with handles := state.handles - 1, uses := state.uses + 1 }
      else state

def events (state : MapState K V) : MapAct K V → List (MapEvent K V)
  | lock => [.locked]
  | unlock => [.unlocked]
  | read key now =>
      match state.store.lookup key with
      | some entry => [.touched (entry.touch now) now]
      | none => []
  | insert entry now =>
      match state.store.lookup entry.key with
      | some old => [.left old .replaced, .placed (entry.touch now) now]
      | none => [.placed (entry.touch now) now]
  | insertIfAbsent entry now =>
      match state.store.lookup entry.key with
      | some _ => []
      | none => [.placed (entry.touch now) now]
  | remove key =>
      match state.store.lookup key with
      | some entry => [.left entry .removed]
      | none => []
  | removeIfSame key seq =>
      match state.store.lookup key with
      | some entry => if entry.seq = seq then [.left entry .evicted] else []
      | none => []
  | clear => state.store.entries.map fun entry => .left entry .cleared
  | reserve => [.numbered state.store.next]
  | setPhase phase => [.entered phase]
  | shift _ source target => if state.phase = source then [.entered target] else []
  | keepJob id => [.keptJob id]
  | scan _ | size | readPhase | takeJob | borrow | hold | letGo | addHandle | takeHandle => []

end MapAct

end ExpiringMap
