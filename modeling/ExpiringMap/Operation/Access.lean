import ExpiringMap.Operation.Basic

/-!
# Reading and writing entries

Each of these takes the lock once.  A sequence number is taken and the clock is read while
the lock is held, so numbers and readings follow the order in which entries reach the store.
-/

namespace ExpiringMap.Operation

variable {n : Nat} {K V : Type}

/-- Gives the value of a key and starts its countdown again, even if it has expired already. -/
def get (map : Fin n) (key : K) : Operation n K V (Option V) :=
  guarded map do
    let now ← now
    read map key now

/-- Puts a value under a key and gives the value it replaces. -/
def put (map : Fin n) (key : K) (value : V) (timeout : Duration) : Operation n K V (Option V) :=
  guarded map do
    let seq ← reserve map
    let now ← now
    insert map { key, value, timeout, seq } now

/-- Puts a value under a key that has none.  If it has one, gives that value, and neither it
nor its countdown changes; the sequence number is spent all the same. -/
def putIfAbsent (map : Fin n) (key : K) (value : V) (timeout : Duration) :
    Operation n K V (Option V) :=
  guarded map do
    let seq ← reserve map
    let now ← now
    insertIfAbsent map { key, value, timeout, seq } now

def remove (map : Fin n) (key : K) : Operation n K V (Option V) :=
  guarded map (erase map key)

end ExpiringMap.Operation
