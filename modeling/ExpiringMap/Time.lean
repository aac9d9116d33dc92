/-!
# Instants, durations and deadlines

An instant is a reading of the clock, a whole number of nanoseconds in 64 bits, so there are
18446744073709551616 of them.  A duration reaches much further, up to that many seconds less a
nanosecond, so adding one to an instant may leave the range of the clock.  `Instant.after?`
says so with `none`, and a deadline of `none` is one that no reading of the clock can pass.
-/

namespace ExpiringMap

/-- A reading of the clock, in nanoseconds since its origin. -/
structure Instant where
  ns : Nat
  bounded : ns < 18446744073709551616
deriving DecidableEq

/-- A length of time in nanoseconds, less than 18446744073709551616 seconds. -/
structure Duration where
  ns : Nat
  bounded : ns < 18446744073709551616000000000
deriving DecidableEq

namespace Duration

def zero : Duration := ⟨0, by decide⟩

/-- The interval between two passes of a map that asks for no other. -/
def second : Duration := ⟨1000000000, by decide⟩

def ofNanoseconds? (ns : Nat) : Option Duration :=
  if h : ns < 18446744073709551616000000000 then some ⟨ns, h⟩ else none

end Duration

namespace Instant

@[ext]
theorem ext {first second : Instant} (h : first.ns = second.ns) : first = second := by
  cases first
  cases second
  cases h
  rfl

instance : LT Instant := ⟨fun first second => first.ns < second.ns⟩

instance : LE Instant := ⟨fun first second => first.ns ≤ second.ns⟩

instance (first second : Instant) : Decidable (first < second) :=
  inferInstanceAs (Decidable (first.ns < second.ns))

instance (first second : Instant) : Decidable (first ≤ second) :=
  inferInstanceAs (Decidable (first.ns ≤ second.ns))

theorem le_def {first second : Instant} : first ≤ second ↔ first.ns ≤ second.ns := Iff.rfl

def origin : Instant := ⟨0, by decide⟩

instance : Inhabited Instant := ⟨origin⟩

/-- The instant of that many nanoseconds, or the last instant of the clock if there is no
such instant. -/
def clamp (ns : Nat) : Instant := ⟨min ns 18446744073709551615, by omega⟩

/-- The clock moved forwards, stopping at its last instant. -/
def advance (now : Instant) (ns : Nat) : Instant := clamp (now.ns + ns)

/-- The clock moved backwards, stopping at its origin. -/
def rewind (now : Instant) (ns : Nat) : Instant := ⟨now.ns - ns, by have := now.bounded; omega⟩

/-- The instant `timeout` after `now`, unless the clock ends before it. -/
def after? (now : Instant) (timeout : Duration) : Option Instant :=
  if h : now.ns + timeout.ns < 18446744073709551616 then some ⟨now.ns + timeout.ns, h⟩ else none

end Instant

/-- The last instant at which an entry is still fresh; `none` lies after every instant. -/
abbrev Deadline := Option Instant

namespace Deadline

def passed (deadline : Deadline) (now : Instant) : Bool :=
  match deadline with
  | some instant => decide (instant < now)
  | none => false

/-- The place of a deadline among all deadlines: an instant by its nanoseconds, and no
deadline after every instant. -/
def rank : Deadline → Nat
  | some instant => instant.ns
  | none => 18446744073709551616

end Deadline

end ExpiringMap
