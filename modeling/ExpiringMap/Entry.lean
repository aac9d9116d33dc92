import ExpiringMap.Text.Elapsed
import ExpiringMap.Text.Record

/-!
# Entries

An entry is a key with its value, the timeout after which it expires when nobody reads it,
the sequence number it was given when it was made, and its deadline.  Reading an entry
touches it: the countdown starts again.  The sequence number tells entries apart that were
put under the same key one after the other.
-/

namespace ExpiringMap

/-- A key with its value and the bookkeeping of its expiration. -/
structure Entry (K V : Type) where
  key : K
  value : V
  timeout : Duration
  /-- The number under which the entry was made.  It has no bound here, and stands for one of 64
  bits as long as its store has given out fewer than 18446744073709551616 of them. -/
  seq : Nat
  deadline : Deadline := none
deriving DecidableEq

namespace Entry

variable {K V : Type}

/-- The entry with its countdown started again at `now`. -/
def touch (entry : Entry K V) (now : Instant) : Entry K V :=
  { entry with deadline := now.after? entry.timeout }

def isExpired (entry : Entry K V) (now : Instant) : Bool :=
  Deadline.passed entry.deadline now

/-- The order in which expired entries are taken: the earlier deadline first, and of equal
deadlines the earlier entry. -/
def notAfter (first second : Entry K V) : Bool :=
  decide (Deadline.rank first.deadline < Deadline.rank second.deadline) ||
    (decide (Deadline.rank first.deadline = Deadline.rank second.deadline) &&
      decide (first.seq ≤ second.seq))

/-- A list that is in order with one more entry at its place. -/
def insertInOrder (entry : Entry K V) : List (Entry K V) → List (Entry K V)
  | [] => [entry]
  | next :: rest =>
      if entry.notAfter next then entry :: next :: rest else next :: insertInOrder entry rest

/-- Entries in the order in which they are taken. -/
def inOrder (entries : List (Entry K V)) : List (Entry K V) := entries.foldr insertInOrder []

@[simp] theorem touch_key (entry : Entry K V) (now : Instant) :
    (entry.touch now).key = entry.key := rfl

@[simp] theorem touch_value (entry : Entry K V) (now : Instant) :
    (entry.touch now).value = entry.value := rfl

@[simp] theorem touch_timeout (entry : Entry K V) (now : Instant) :
    (entry.touch now).timeout = entry.timeout := rfl

@[simp] theorem touch_seq (entry : Entry K V) (now : Instant) :
    (entry.touch now).seq = entry.seq := rfl

/-! ## The order -/

theorem notAfter_iff {first second : Entry K V} :
    first.notAfter second = true ↔
      Deadline.rank first.deadline < Deadline.rank second.deadline ∨
        Deadline.rank first.deadline = Deadline.rank second.deadline ∧ first.seq ≤ second.seq := by
  simp [notAfter]

theorem notAfter_trans {first second third : Entry K V} (h₁ : first.notAfter second = true)
    (h₂ : second.notAfter third = true) : first.notAfter third = true := by
  rw [notAfter_iff] at *
  omega

theorem notAfter_total (first second : Entry K V) :
    first.notAfter second = true ∨ second.notAfter first = true := by
  rw [notAfter_iff, notAfter_iff]
  omega

theorem insertInOrder_perm (entry : Entry K V) (entries : List (Entry K V)) :
    (insertInOrder entry entries).Perm (entry :: entries) := by
  induction entries with
  | nil => exact .rfl
  | cons next rest ih =>
      simp only [insertInOrder]
      split
      · exact .rfl
      · exact (ih.cons next).trans (.swap entry next rest)

theorem inOrder_perm (entries : List (Entry K V)) : (inOrder entries).Perm entries := by
  induction entries with
  | nil => exact .rfl
  | cons entry rest ih => exact (insertInOrder_perm entry (inOrder rest)).trans (ih.cons entry)

theorem pairwise_insertInOrder (entry : Entry K V) {entries : List (Entry K V)}
    (h : entries.Pairwise (·.notAfter · = true)) :
    (insertInOrder entry entries).Pairwise (·.notAfter · = true) := by
  induction entries with
  | nil => simp [insertInOrder]
  | cons next rest ih =>
      have ⟨hnext, hrest⟩ := List.pairwise_cons.mp h
      simp only [insertInOrder]
      split
      · next hle =>
        refine List.pairwise_cons.mpr ⟨fun other hother => ?_, h⟩
        rcases List.mem_cons.mp hother with rfl | hother
        · exact hle
        · exact notAfter_trans hle (hnext other hother)
      · next hgt =>
        refine List.pairwise_cons.mpr ⟨fun other hother => ?_, ih hrest⟩
        rcases List.mem_cons.mp ((insertInOrder_perm entry rest).mem_iff.mp hother) with
          rfl | hother
        · exact (notAfter_total other next).resolve_left hgt
        · exact hnext other hother

theorem pairwise_inOrder (entries : List (Entry K V)) :
    (inOrder entries).Pairwise (·.notAfter · = true) := by
  induction entries with
  | nil => exact .nil
  | cons entry rest ih => exact pairwise_insertInOrder entry ih

/-- The entry as a record of what its maker chose, with key and value already written. -/
def record (entry : Entry K V) (key value : String) : Text.Record where
  title := "Entry"
  fields :=
    [("key", .word key), ("value", .word value), ("timeout", .word (Text.elapsed entry.timeout))]

end Entry

end ExpiringMap
