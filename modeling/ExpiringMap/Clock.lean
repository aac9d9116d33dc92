import ExpiringMap.Time

/-!
# The clock

A clock is either set by hand, moved forwards and backwards as one likes, or it runs on with
the time that passes.  A reading takes a clock that runs some time too, so of two readings the
later one shows the later instant, unless the clock has come to its end.  A clock may be in
other hands as well, which move it between one act and the next: what it shows after the next
acts can be laid down beforehand, for as many of them as one likes.
-/

namespace ExpiringMap

/-- A clock that shows `now`. -/
structure Clock where
  now : Instant := .origin
  runs : Bool := false
  /-- What the clock is going to show after the next acts, where others have a hand in it. -/
  foreseen : List Instant := []

def Clock.elapse (clock : Clock) (ns : Nat) : Clock :=
  if clock.runs then { clock with now := clock.now.advance ns } else clock

/-- What can be done with a clock. -/
inductive ClockAct
  | read
  | advance (ns : Nat)
  | rewind (ns : Nat)

namespace ClockAct

/-- The clock after an act that nobody else interferes with. -/
def applyAlone (clock : Clock) : ClockAct → Clock
  | read => clock.elapse 1
  | advance ns => { clock with now := clock.now.advance ns }
  | rewind ns => { clock with now := clock.now.rewind ns }

def apply (clock : Clock) (act : ClockAct) : Clock :=
  match clock.foreseen with
  | [] => act.applyAlone clock
  | now :: foreseen => { clock with now, foreseen }

def moves (clock : Clock) : ClockAct → Bool
  | read => clock.runs
  | advance _ | rewind _ => true

end ClockAct

end ExpiringMap
