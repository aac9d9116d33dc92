import ExpiringMap.Entry
import ExpiringMap.Panic
import ExpiringMap.Phase

/-!
# Requests and answers

What callers ask for, from outside or from within a hook, and what they are given.  Most
requests go to a map and need a handle of it; the others go to the clock, the scheduler or
the handles themselves.  A caller may also have groups of calls made at the same time, and goes
on when all of them have been answered.
-/

namespace ExpiringMap

/-- What is asked of a map through one of its handles. -/
inductive MapRequest (K V : Type)
  | get (key : K)
  | put (key : K) (value : V) (timeout : Duration)
  | putIfAbsent (key : K) (value : V) (timeout : Duration)
  | remove (key : K)
  | size
  | isEmpty
  | purge
  | start
  | stop
  | phase
  | name
  | interval
  | isSchedulerShutdown
  | describe (layout : Text.Layout)
  | addHandle
  /-- Wait until the map has that many entries, for five seconds at most. -/
  | awaitSize (count : Nat)

/-- What is asked of a map or of what surrounds the maps. -/
inductive Request (K V : Type)
  | map (request : MapRequest K V)
  | dropHandle
  | advance (ns : Nat)
  | rewind (ns : Nat)
  | sleep (milliseconds : Nat)
  | shutdown
  /-- Let the scheduler refuse every task with that error, or accept tasks again. -/
  | refuse (error : Option Error)
  | runJob (id : Nat)
  | tick

/-- The maps that somebody goes to one after the other. -/
abbrev Path (n : Nat) := List (Fin n)

namespace Path

variable {n : Nat}

/-- Where somebody comes first who goes along a path from `map`. -/
def first (path : Path n) (map : Fin n) : Fin n := path.head?.getD map

/-- Where somebody is in the end who goes along a path from `map`. -/
def last (path : Path n) (map : Fin n) : Fin n := path.getLast?.getD map

end Path

/-- What somebody asks for among `n` maps who stands at one of them and goes from there along a
path. -/
inductive Call (n : Nat) (K V : Type)
  /-- Make a request where the path ends. -/
  | ask (path : Path n) (request : Request K V)
  /-- Have groups of calls made where the path ends, the calls of a group one after the other and
  all groups at the same time. -/
  | together (path : Path n) (groups : List (List (Call n K V)))

def Call.path {n : Nat} {K V : Type} : Call n K V → Path n
  | ask path _ | together path _ => path

/-- What became of an attempt to run a job. -/
inductive RunResult
  | ran
  | busy
  | noJob
deriving DecidableEq

/-- What a request gives. -/
inductive Answer (V : Type)
  | done
  | value (value : Option V)
  | count (n : Nat)
  | truth (b : Bool)
  | status (status : Except Error Unit)
  | phase (phase : Phase)
  | name (name : Option String)
  | interval (interval : Duration)
  | text (text : String)
  | instant (now : Instant)
  | run (result : RunResult)
  | ranJobs (ids : List Nat)
  /-- What the calls of each group have come to. -/
  | groups (outcomes : List (List (Except Panic (Answer V))))
  /-- The map has no handle left to ask it through. -/
  | noHandle

end ExpiringMap
