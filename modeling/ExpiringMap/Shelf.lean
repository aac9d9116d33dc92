import ExpiringMap.Store

/-!
# A shelf of loose entries beside a store

The parts of a map's work one at a time: entries are made, touched and copied while they lie
loose in named slots, and move into the store when they are inserted.
-/

namespace ExpiringMap

/-- A store, and the entries that are not in it yet. -/
structure Shelf (K V : Type) where
  store : Store K V := .empty
  loose : List (String × Entry K V) := []

namespace Shelf

inductive Task (K V : Type)
  | make (slot : String) (key : K) (value : V) (timeout : Duration)
  | touch (slot : String) (now : Instant)
  | isExpired (slot : String) (now : Instant)
  | look (slot : String)
  | text (slot : String) (layout : Text.Layout)
  | copy (slot target : String)
  | insert (slot : String)
  | insertIfAbsent (slot : String)
  | read (key : K) (now : Instant)
  | remove (key : K)
  | removeIfSame (key : K) (seq : Nat)
  | expired (now : Instant)
  | clear
  | isEmpty

inductive Finding (K V : Type)
  | nothing
  | number (n : Nat)
  | deadline (deadline : Deadline)
  | truth (b : Bool)
  | entries (entries : List (Entry K V))
  | entry (entry : Entry K V)
  | entryText (entry : Entry K V) (layout : Text.Layout)
  | value (value : Option V)
  | noSuchSlot

variable {K V : Type}

/-- An empty shelf whose store has room for so many entries. -/
def ofCapacity (capacity : Nat) : Except Misuse (Shelf K V) := do
  let store ← Store.ofCapacity capacity
  return { store }

def slot? (shelf : Shelf K V) (slot : String) : Option (Entry K V) := shelf.loose.lookup slot

def lay (shelf : Shelf K V) (slot : String) (entry : Entry K V) : Shelf K V :=
  { shelf with loose := (slot, entry) :: shelf.loose.filter (·.1 != slot) }

def unlay (shelf : Shelf K V) (slot : String) : Shelf K V :=
  { shelf with loose := shelf.loose.filter (·.1 != slot) }

/-- Work on the entry of a slot, if there is one. -/
def onSlot (shelf : Shelf K V) (slot : String)
    (work : Entry K V → Finding K V × Shelf K V) : Finding K V × Shelf K V :=
  match shelf.slot? slot with
  | some entry => work entry
  | none => (.noSuchSlot, shelf)

/-- The expired entries in the order in which they were made. -/
def expiredBySeq (shelf : Shelf K V) (now : Instant) : List (Entry K V) :=
  (shelf.store.expired now).mergeSort fun first second => decide (first.seq ≤ second.seq)

def perform [DecidableEq K] (shelf : Shelf K V) : Task K V → Finding K V × Shelf K V
  | .make slot key value timeout =>
      let (seq, store) := shelf.store.reserve
      (.number seq, { shelf with store }.lay slot { key, value, timeout, seq })
  | .touch slot now =>
      shelf.onSlot slot fun entry =>
        let touched := entry.touch now
        (.deadline touched.deadline, shelf.lay slot touched)
  | .isExpired slot now => shelf.onSlot slot fun entry => (.truth (entry.isExpired now), shelf)
  | .look slot => shelf.onSlot slot fun entry => (.entry entry, shelf)
  | .text slot layout => shelf.onSlot slot fun entry => (.entryText entry layout, shelf)
  | .copy slot target => shelf.onSlot slot fun entry => (.nothing, shelf.lay target entry)
  | .insert slot =>
      shelf.onSlot slot fun entry =>
        let (replaced, store) := shelf.store.insert entry
        (.value replaced, { shelf with store }.unlay slot)
  | .insertIfAbsent slot =>
      shelf.onSlot slot fun entry =>
        let (present, store) := shelf.store.insertIfAbsent entry
        (.value present, { shelf with store }.unlay slot)
  | .read key now =>
      let (value, store) := shelf.store.read key now
      (.value value, { shelf with store })
  | .remove key =>
      let (value, store) := shelf.store.remove key
      (.value value, { shelf with store })
  | .removeIfSame key seq =>
      let (removed, store) := shelf.store.removeIfSame key seq
      (.truth removed, { shelf with store })
  | .expired now => (.entries (shelf.expiredBySeq now), shelf)
  | .clear => (.nothing, { shelf with store := shelf.store.clear })
  | .isEmpty => (.truth shelf.store.isEmpty, shelf)

end Shelf

end ExpiringMap
