import ExpiringMap.Time

/-!
# Durations as text

A duration is written in the largest of the units `s`, `ms`, `µs` and `ns` that it reaches,
exactly: the fraction has as many digits as it needs and no trailing zeros.
-/

namespace ExpiringMap.Text

/-- A unit of time: a power of ten in nanoseconds, and its name. -/
structure TimeUnit where
  ns : Nat
  name : String

/-- The units a duration may be written in if it reaches them, largest first. -/
def TimeUnit.descending : List TimeUnit := [⟨1000000000, "s"⟩, ⟨1000000, "ms"⟩, ⟨1000, "µs"⟩]

/-- The unit of durations that reach no larger one. -/
def TimeUnit.nanosecond : TimeUnit := ⟨1, "ns"⟩

/-- The largest unit that so many nanoseconds reach. -/
def TimeUnit.reachedBy (ns : Nat) : TimeUnit :=
  (TimeUnit.descending.find? fun unit => decide (unit.ns ≤ ns)).getD .nanosecond

/-- The decimal places of `ns` nanoseconds in a unit, without trailing zeros.  Adding the unit
itself puts a digit in front, which keeps the leading zeros. -/
def TimeUnit.fraction (unit : TimeUnit) (ns : Nat) : List Char :=
  let digits := (Nat.toDigits 10 (unit.ns + ns % unit.ns)).drop 1
  (digits.reverse.dropWhile (· == '0')).reverse

def elapsed (duration : Duration) : String :=
  let unit := TimeUnit.reachedBy duration.ns
  let fraction := unit.fraction duration.ns
  let whole := toString (duration.ns / unit.ns)
  if fraction.isEmpty then whole ++ unit.name
  else whole ++ "." ++ String.ofList fraction ++ unit.name

end ExpiringMap.Text
