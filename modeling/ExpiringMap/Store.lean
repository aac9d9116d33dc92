import ExpiringMap.Entry
import ExpiringMap.Misuse

/-!
# The store of a map

A store holds at most one entry for each key, in no order that matters, and the next
sequence number to give out.  `Store.lookup` is the view through which every operation is
described: it is all that the operations below ever show of the entries, apart from their
number and the list of those that have expired.
-/

namespace ExpiringMap

/-- Entries with pairwise different keys, and the next sequence number. -/
structure Store (K V : Type) where
  entries : List (Entry K V) := []
  /-- A counter of 64 bits would begin anew after 18446744073709551616 entries.  This one does not:
  a store is taken to make fewer entries than that in its life. -/
  next : Nat := 0
  nodup_keys : (entries.map Entry.key).Nodup := by simp

namespace Store

variable {K V : Type}

/-- The store before anything is put into it. -/
def empty : Store K V := {}

/-- The number of entries that room can be made for beforehand.  Room comes in powers of two
of slots, an eighth of which stays free; a slot takes 65 bytes, and no more than
9223372036854775807 bytes can be had, so 72057594037927936 slots are the most. -/
def mostCapacity : Nat := 72057594037927936 / 8 * 7

/-- An empty store with room for so many entries, which nothing but its making can tell. -/
def ofCapacity (capacity : Nat) : Except Misuse (Store K V) :=
  if capacity ≤ mostCapacity then .ok empty else .error .capacityOverflow

def size (store : Store K V) : Nat := store.entries.length

def isEmpty (store : Store K V) : Bool := store.entries.isEmpty

/-- Gives out the next sequence number. -/
def reserve (store : Store K V) : Nat × Store K V :=
  (store.next, { store with next := store.next + 1 })

/-- Takes every entry out.  Sequence numbers go on from where they were. -/
def clear (store : Store K V) : Store K V := { entries := [], next := store.next }

def expired (store : Store K V) (now : Instant) : List (Entry K V) :=
  store.entries.filter fun entry => entry.isExpired now

/-- The store with some of its entries. -/
def restrict (store : Store K V) (keep : Entry K V → Bool) : Store K V where
  entries := store.entries.filter keep
  next := store.next
  nodup_keys := store.nodup_keys.sublist (List.filter_sublist.map _)

variable [DecidableEq K]

/-- The entry of a key. -/
def lookup (store : Store K V) (key : K) : Option (Entry K V) :=
  store.entries.find? fun entry => decide (entry.key = key)

def erase (store : Store K V) (key : K) : Store K V :=
  store.restrict fun entry => decide (entry.key ≠ key)

/-- Starts the countdown of the entry of a key again. -/
def touch (store : Store K V) (key : K) (now : Instant) : Store K V where
  entries := store.entries.map fun entry => if entry.key = key then entry.touch now else entry
  next := store.next
  nodup_keys := by
    have same : (fun entry : Entry K V => (if entry.key = key then entry.touch now else entry).key)
        = Entry.key := by
      funext entry
      split <;> rfl
    rw [List.map_map]
    exact (congrArg (fun label => (store.entries.map label).Nodup) same) ▸ store.nodup_keys

/-- The value of a key, whose countdown starts again. -/
def read (store : Store K V) (key : K) (now : Instant) : Option V × Store K V :=
  ((store.lookup key).map Entry.value, store.touch key now)

private theorem key_not_mem_erase (store : Store K V) (key : K) :
    key ∉ (store.erase key).entries.map Entry.key := by
  simp [erase, restrict]

/-- The store with an entry in the place of whatever its key had. -/
def place (store : Store K V) (entry : Entry K V) : Store K V where
  entries := entry :: (store.erase entry.key).entries
  next := store.next
  nodup_keys := List.nodup_cons.mpr
    ⟨key_not_mem_erase store entry.key, (store.erase entry.key).nodup_keys⟩

/-- Puts an entry in, and gives back the value that its key had before. -/
def insert (store : Store K V) (entry : Entry K V) : Option V × Store K V :=
  ((store.lookup entry.key).map Entry.value, store.place entry)

/-- Puts an entry in if its key is free; otherwise gives back the value of the key, whose
entry stays as it is. -/
def insertIfAbsent (store : Store K V) (entry : Entry K V) : Option V × Store K V :=
  match store.lookup entry.key with
  | some present => (some present.value, store)
  | none => (none, store.place entry)

def remove (store : Store K V) (key : K) : Option V × Store K V :=
  ((store.lookup key).map Entry.value, store.erase key)

/-- Takes the entry of a key out, but only the one of that sequence number. -/
def removeIfSame (store : Store K V) (key : K) (seq : Nat) : Bool × Store K V :=
  match store.lookup key with
  | some entry => if entry.seq = seq then (true, store.erase key) else (false, store)
  | none => (false, store)

/-! ## What the operations do to the view -/

@[simp] theorem lookup_empty (key : K) : (empty : Store K V).lookup key = none := rfl

@[simp] theorem lookup_clear (store : Store K V) (key : K) : store.clear.lookup key = none := rfl

@[simp] theorem lookup_reserve (store : Store K V) (key : K) :
    store.reserve.2.lookup key = store.lookup key := rfl

theorem key_of_lookup {store : Store K V} {key : K} {entry : Entry K V}
    (h : store.lookup key = some entry) : entry.key = key := by
  simpa using List.find?_some h

theorem mem_of_lookup {store : Store K V} {key : K} {entry : Entry K V}
    (h : store.lookup key = some entry) : entry ∈ store.entries :=
  List.mem_of_find?_eq_some h

theorem lookup_eq_some_iff {store : Store K V} {key : K} {entry : Entry K V} :
    store.lookup key = some entry ↔ entry ∈ store.entries ∧ entry.key = key := by
  refine ⟨fun h => ⟨mem_of_lookup h, key_of_lookup h⟩, fun ⟨hmem, hkey⟩ => ?_⟩
  unfold lookup
  have hnodup := store.nodup_keys
  revert hmem hnodup
  generalize store.entries = entries
  intro hmem hnodup
  induction entries with
  | nil => simp at hmem
  | cons first rest ih =>
      have ⟨hfirst, hrest⟩ := List.nodup_cons.mp hnodup
      rcases List.mem_cons.mp hmem with rfl | hmem
      · simp [hkey]
      · have hne : first.key ≠ key := fun heq =>
          hfirst (List.mem_map.mpr ⟨entry, hmem, hkey.trans heq.symm⟩)
        simpa [hne] using ih hmem hrest

theorem lookup_erase (store : Store K V) (key other : K) :
    (store.erase key).lookup other = if other = key then none else store.lookup other := by
  simp only [lookup, erase, restrict, List.find?_filter]
  split
  · next h =>
    subst h
    simp
  · next h =>
    congr 1
    funext entry
    by_cases hkey : entry.key = other <;> simp [hkey, h]

theorem lookup_place (store : Store K V) (entry : Entry K V) (key : K) :
    (store.place entry).lookup key = if key = entry.key then some entry else store.lookup key := by
  have herase := lookup_erase store entry.key key
  simp only [lookup, place, List.find?_cons] at herase ⊢
  by_cases h : entry.key = key
  · simp [h]
  · have h' : ¬ key = entry.key := fun heq => h heq.symm
    simp only [h, h', decide_false, if_false] at herase ⊢
    exact herase

theorem lookup_touch (store : Store K V) (key other : K) (now : Instant) :
    (store.touch key now).lookup other =
      if other = key then (store.lookup other).map (·.touch now) else store.lookup other := by
  simp only [lookup, touch]
  induction store.entries with
  | nil => simp
  | cons entry rest ih =>
    by_cases hkey : entry.key = key
    · by_cases hother : entry.key = other
      · have : other = key := hother ▸ hkey
        simp [hkey, this]
      · simp only [List.map_cons, hkey, if_true, List.find?_cons, Entry.touch_key]
        have hne : ¬ key = other := fun heq => hother (hkey.trans heq)
        simpa [hne] using ih
    · simp only [List.map_cons, hkey, if_false, List.find?_cons]
      by_cases hother : entry.key = other
      · have hne : ¬ other = key := fun heq => hkey (hother.trans heq)
        simp [hother, hne]
      · simpa [hother] using ih

theorem lookup_read (store : Store K V) (key other : K) (now : Instant) :
    (store.read key now).2.lookup other =
      if other = key then (store.lookup other).map (·.touch now) else store.lookup other :=
  lookup_touch store key other now

theorem lookup_insert (store : Store K V) (entry : Entry K V) (key : K) :
    (store.insert entry).2.lookup key = if key = entry.key then some entry else store.lookup key :=
  lookup_place store entry key

theorem lookup_insertIfAbsent (store : Store K V) (entry : Entry K V) (key : K) :
    (store.insertIfAbsent entry).2.lookup key =
      (store.lookup key).or (if key = entry.key then some entry else none) := by
  unfold insertIfAbsent
  split
  · next present hpresent =>
    by_cases h : key = entry.key
    · simp [h, hpresent]
    · simp [h]
  · next habsent =>
    rw [lookup_place]
    by_cases h : key = entry.key
    · simp [h, habsent]
    · simp [h]

theorem lookup_remove (store : Store K V) (key other : K) :
    (store.remove key).2.lookup other = if other = key then none else store.lookup other :=
  lookup_erase store key other

/-- Removing the entry of a key and a sequence number takes out that entry and no other. -/
theorem lookup_removeIfSame (store : Store K V) (key other : K) (seq : Nat) :
    (store.removeIfSame key seq).2.lookup other =
      (store.lookup other).filter fun entry =>
        !(decide (other = key) && decide (entry.seq = seq)) := by
  unfold removeIfSame
  by_cases h : other = key
  · subst h
    cases hlookup : store.lookup other with
    | none => simp [hlookup]
    | some entry =>
        by_cases hseq : entry.seq = seq
        · simp [hseq, lookup_erase, Option.filter]
        · simp [hseq, hlookup, Option.filter]
  · have hkeep : ((store.lookup other).filter fun entry =>
        !(decide (other = key) && decide (entry.seq = seq))) = store.lookup other := by
      cases store.lookup other <;> simp [h]
    rw [hkeep]
    split
    · split
      · rw [lookup_erase, if_neg h]
      · rfl
    · rfl

end Store

end ExpiringMap
