import ExpiringMap.Proofs.Entries.Expiry
import ExpiringMap.Proofs.Pass.Decided
import Mathlib.Data.Set.Card

/-!
# A dictionary to compare with

What somebody who uses a single map needs to know of it: for every key the value, the timeout and
what the clock showed when the countdown was last started.  There are no deadlines, no sequence
numbers and no lists here, and sums of times are whole numbers without a bound.
-/

namespace ExpiringMap

variable {K V : Type}

structure Item (V : Type) where
  value : V
  timeout : Duration
  /-- What the clock showed when the countdown was last started. -/
  since : Instant

/-- Whether the countdown of an item has run out by `now`. -/
def Item.isOver (item : Item V) (now : Instant) : Bool :=
  decide (item.since.ns + item.timeout.ns < now.ns)

inductive Use (K V : Type)
  | get (key : K)
  | put (key : K) (value : V) (timeout : Duration)
  | putIfAbsent (key : K) (value : V) (timeout : Duration)
  | remove (key : K)
  | size
  | isEmpty
  | purge
  /-- Stop the map, which has been started. -/
  | stop
deriving DecidableEq

def Use.request : Use K V → MapRequest K V
  | get key => .get key
  | put key value timeout => .put key value timeout
  | putIfAbsent key value timeout => .putIfAbsent key value timeout
  | remove key => .remove key
  | size => .size
  | isEmpty => .isEmpty
  | purge => .purge
  | stop => .stop

/-- What is known of each key. -/
abbrev Dictionary (K V : Type) := K → Option (Item V)

namespace Dictionary

def empty : Dictionary K V := fun _ => none

variable (dictionary : Dictionary K V)

def value (key : K) : Option V := (dictionary key).map Item.value

noncomputable def size : Nat := {key | dictionary key ≠ none}.ncard

open Classical in
noncomputable def answer : Use K V → Answer V
  | .get key | .put key _ _ | .putIfAbsent key _ _ | .remove key => .value (dictionary.value key)
  | .size => .count dictionary.size
  | .isEmpty => .truth (decide (∀ key, dictionary key = none))
  | .purge => .done
  | .stop => .status (.ok ())

variable [DecidableEq K]

/-- The dictionary after a use at a moment when the clock shows `now`. -/
def apply (verdicts : Verdicts K V) (now : Instant) : Use K V → Dictionary K V
  | .get key =>
      Function.update dictionary key ((dictionary key).map fun item => { item with since := now })
  | .put key value timeout => Function.update dictionary key (some ⟨value, timeout, now⟩)
  | .putIfAbsent key value timeout =>
      match dictionary key with
      | some _ => dictionary
      | none => Function.update dictionary key (some ⟨value, timeout, now⟩)
  | .remove key => Function.update dictionary key none
  | .size | .isEmpty => dictionary
  | .purge => fun key => (dictionary key).filter fun item =>
      !(item.isOver now && verdicts.evicts key item.value item.timeout)
  | .stop => empty

/-- What a dictionary answers to one use after the other. -/
noncomputable def answers (verdicts : Verdicts K V) :
    Dictionary K V → List (Use K V × Instant) → List (Answer V)
  | _, [] => []
  | dictionary, (use, now) :: rest =>
      dictionary.answer use :: answers verdicts (dictionary.apply verdicts now use) rest

def applyAll (verdicts : Verdicts K V) : Dictionary K V → List (Use K V × Instant) → Dictionary K V
  | dictionary, [] => dictionary
  | dictionary, (use, now) :: rest =>
      applyAll verdicts (dictionary.apply verdicts now use) rest

end Dictionary

/-! ## Stores that represent a dictionary -/

/-- Whether an entry is what a store makes of an item. -/
structure Entry.Shows (entry : Entry K V) (item : Item V) : Prop where
  value : entry.value = item.value
  timeout : entry.timeout = item.timeout
  deadline : entry.deadline = item.since.after? item.timeout

/-- A deadline beyond the end of the clock is none, and the exact sum is not passed either. -/
theorem Entry.Shows.isExpired_eq {entry : Entry K V} {item : Item V} (h : entry.Shows item)
    (now : Instant) : entry.isExpired now = item.isOver now := by
  have hpassed : entry.isExpired now = true ↔ item.since.ns + item.timeout.ns < now.ns := by
    rw [isExpired, h.deadline, Deadline.passed_after?_iff]
  exact Bool.eq_iff_iff.mpr (hpassed.trans decide_eq_true_iff.symm)

variable [DecidableEq K]

/-- Whether a store has what a dictionary knows, under the same keys. -/
def Store.Represents (store : Store K V) (dictionary : Dictionary K V) : Prop :=
  ∀ key, Option.Rel Entry.Shows (store.lookup key) (dictionary key)

section Rel

variable {α β α' β' γ : Type} {related : α → β → Prop} {related' : α' → β' → Prop}
  {first : Option α} {second : Option β}

theorem map_eq_of_rel (h : Option.Rel related first second) {left : α → γ} {right : β → γ}
    (heq : ∀ a b, related a b → left a = right b) : first.map left = second.map right := by
  cases h with
  | some hrelated => exact congrArg some (heq _ _ hrelated)
  | none => rfl

theorem rel_map (h : Option.Rel related first second) {left : α → α'} {right : β → β'}
    (hmap : ∀ a b, related a b → related' (left a) (right b)) :
    Option.Rel related' (first.map left) (second.map right) := by
  cases h with
  | some hrelated => exact .some (hmap _ _ hrelated)
  | none => exact .none

theorem rel_filter (h : Option.Rel related first second) {left : α → Bool} {right : β → Bool}
    (heq : ∀ a b, first = some a → related a b → left a = right b) :
    Option.Rel related (first.filter left) (second.filter right) := by
  cases h with
  | none => exact .none
  | @some a b hrelated =>
      rw [Option.filter_some, Option.filter_some, heq a b rfl hrelated]
      split
      · exact .some hrelated
      · exact .none

theorem rel_eq_none_iff (h : Option.Rel related first second) : first = none ↔ second = none := by
  cases h <;> simp

end Rel

namespace Store.Represents

variable {store : Store K V} {dictionary : Dictionary K V}

theorem lookup_map_value (h : store.Represents dictionary) (key : K) :
    (store.lookup key).map Entry.value = dictionary.value key :=
  map_eq_of_rel (h key) fun _ _ hshows => hshows.value

theorem reserve (h : store.Represents dictionary) : store.reserve.2.Represents dictionary := h

theorem touch (h : store.Represents dictionary) (key : K) (now : Instant) :
    (store.touch key now).Represents (Function.update dictionary key
      ((dictionary key).map fun item => { item with since := now })) := by
  intro other
  rw [lookup_touch, Function.update_apply]
  by_cases heq : other = key
  · subst heq
    rw [if_pos rfl, if_pos rfl]
    refine rel_map (h other) fun entry item hshows => ⟨hshows.value, hshows.timeout, ?_⟩
    exact congrArg now.after? hshows.timeout
  · rw [if_neg heq, if_neg heq]
    exact h other

theorem place (h : store.Represents dictionary) (key : K) (value : V) (timeout : Duration)
    (seq : Nat) (now : Instant) :
    (store.place (Entry.touch ⟨key, value, timeout, seq, none⟩ now)).Represents
      (Function.update dictionary key (some ⟨value, timeout, now⟩)) := by
  intro other
  rw [lookup_place, Function.update_apply, Entry.touch_key]
  split
  · exact .some ⟨rfl, rfl, rfl⟩
  · exact h other

theorem insertIfAbsent (h : store.Represents dictionary) (key : K) (value : V)
    (timeout : Duration) (seq : Nat) (now : Instant) :
    let inserted := store.insertIfAbsent (Entry.touch ⟨key, value, timeout, seq, none⟩ now)
    inserted.1 = dictionary.value key ∧
      inserted.2.Represents (match dictionary key with
        | some _ => dictionary
        | none => Function.update dictionary key (some ⟨value, timeout, now⟩)) := by
  have hvalue := h.lookup_map_value key
  have hnone := rel_eq_none_iff (h key)
  simp only [Store.insertIfAbsent, Entry.touch_key]
  cases hlookup : store.lookup key with
  | none =>
      rw [hlookup] at hvalue
      rw [hnone.mp hlookup]
      exact ⟨hvalue, h.place key value timeout seq now⟩
  -- the key is known on both sides, or on neither
  | some present =>
      rw [hlookup] at hvalue
      cases hknown : dictionary key with
      | none => exact absurd (hnone.mpr hknown) (by simp [hlookup])
      | some item => exact ⟨hvalue, h⟩

theorem erase (h : store.Represents dictionary) (key : K) :
    (store.erase key).Represents (Function.update dictionary key none) := by
  intro other
  rw [lookup_erase, Function.update_apply]
  split
  · exact .none
  · exact h other

theorem of_entries_eq_nil (h : store.entries = []) : store.Represents .empty := by
  intro key
  rw [show store.lookup key = none by simp [lookup, h]]
  exact .none

theorem restrict (h : store.Represents dictionary) {keep : Entry K V → Bool}
    {keepItem : K → Item V → Bool}
    (hkeep : ∀ entry item, entry.Shows item → keep entry = keepItem entry.key item) :
    (store.restrict keep).Represents fun key => (dictionary key).filter (keepItem key) := by
  intro key
  rw [lookup_restrict]
  refine rel_filter (h key) fun entry item hentry hshows => ?_
  rw [hkeep entry item hshows, key_of_lookup hentry]

/-- A store has as many entries as its dictionary has keys. -/
theorem size_eq (h : store.Represents dictionary) : store.size = dictionary.size := by
  have hkeys :
      {key | dictionary key ≠ none} = ((store.entries.map Entry.key).toFinset : Set K) := by
    ext key
    rw [Set.mem_ofPred_eq, ne_eq, ← rel_eq_none_iff (h key), lookup_eq_none_iff]
    simp
  rw [Dictionary.size, hkeys, Set.ncard_coe_finset, List.toFinset_card_of_nodup store.nodup_keys,
    List.length_map]
  rfl

theorem size_eq_zero_iff (h : store.Represents dictionary) :
    store.size = 0 ↔ ∀ key, dictionary key = none := by
  refine ⟨fun hsize key => ?_, fun hnone => ?_⟩
  · rw [← rel_eq_none_iff (h key), lookup_eq_none_iff, List.length_eq_zero_iff.mp hsize]
    simp
  · refine List.length_eq_zero_iff.mpr (List.eq_nil_iff_forall_not_mem.mpr fun entry hentry => ?_)
    have hlookup := (rel_eq_none_iff (h entry.key)).mpr (hnone entry.key)
    exact lookup_eq_none_iff.mp hlookup entry hentry rfl

end Store.Represents

end ExpiringMap
