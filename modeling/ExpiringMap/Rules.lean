import ExpiringMap.Settings

/-!
# Policies made of rules

A policy for text keys and integer values, given as data.  Each hook has a list of rules; the
first rule whose conditions all hold says which calls the hook makes and how it answers.  A
hook for which no rule holds lets the eviction pass, and one that has to divide by zero panics.
-/

namespace ExpiringMap.Rules

/-- What a rule may ask of a call of its hook. -/
inductive Condition
  | key (key : String)
  | value (value : Int)
  /-- The value leaves that remainder, which is never negative. -/
  | remainder (modulus remainder : Int)
  /-- The entry has at least that timeout; the eviction hook is shown no timeout. -/
  | timeoutAtLeast (timeout : Duration)
  /-- The hook has been called so often before. -/
  | callNumber (number : Nat)
  /-- The rule has been followed fewer times than that. -/
  | followedLess (count : Nat)

/-- A rule of a hook. -/
structure Rule (n : Nat) where
  conditions : List Condition
  calls : List (Call n String Int)
  verdict : Outcome Bool

/-- The rules of both hooks of a map. -/
structure RuleBook (n : Nat) where
  screening : List (Rule n) := []
  eviction : List (Rule n) := []

/-- How often a hook has been called, and which of its rules it has followed, each by its
place in the list as often as it was followed. -/
structure Tally where
  calls : Nat := 0
  followed : List Nat := []

/-- The tallies of both hooks of a map. -/
structure Tallies where
  screening : Tally := {}
  eviction : Tally := {}

/-- What the hooks of all maps remember. -/
abbrev Memory (n : Nat) := Vector Tallies n

def Memory.fresh (n : Nat) : Memory n := Vector.replicate n {}

/-- The remainder of a division of words of 64 bits, which is never negative.  There is none
of a division by zero, nor of one whose quotient is too large for a word. -/
def remainder (value modulus : Int) : Outcome Int :=
  if modulus = 0 then
    .error (.fixedText "attempt to calculate the remainder with a divisor of zero")
  else if value = -9223372036854775808 ∧ modulus = -1 then
    .error (.fixedText "attempt to calculate the remainder with overflow")
  else .ok (value % modulus)

def shownKey : Hook String Int → String
  | .screening entry => entry.key
  | .eviction key _ => key

def shownValue : Hook String Int → Int
  | .screening entry => entry.value
  | .eviction _ value => value

/-- Whether a condition of a rule holds in a call of the hook. -/
def Condition.holds (hook : Hook String Int) (number followed : Nat) : Condition → Outcome Bool
  | key wanted => return decide (shownKey hook = wanted)
  | value wanted => return decide (shownValue hook = wanted)
  | remainder modulus wanted =>
      return decide ((← Rules.remainder (shownValue hook) modulus) = wanted)
  | timeoutAtLeast timeout =>
      match hook with
      | .screening entry => return decide (timeout.ns ≤ entry.timeout.ns)
      | .eviction .. => return false
  | callNumber wanted => return decide (number = wanted)
  | followedLess count => return decide (followed < count)

/-- The first rule that holds, with its place in the list; the first rule given has the place
`place`.  Conditions are looked at in turn, and none after one that does not hold. -/
def firstHolding? {n : Nat} (hook : Hook String Int) (tally : Tally) (place : Nat) :
    List (Rule n) → Outcome (Option (Nat × Rule n))
  | [] => return none
  | rule :: rules => do
      let followed := tally.followed.count place
      if ← rule.conditions.allM (Condition.holds hook tally.calls followed) then
        return some (place, rule)
      else
        firstHolding? hook tally (place + 1) rules

/-- How a hook with these rules takes a call, and its tally after it. -/
def react {n : Nat} {S : Type} (rules : List (Rule n)) (tally : Tally) (hook : Hook String Int) :
    Tally × Script n S String Int :=
  let counted := { tally with calls := tally.calls + 1 }
  match firstHolding? hook tally 0 rules with
  | .error panic => (counted, .answer (.error panic))
  | .ok none => (counted, .answer (.ok true))
  | .ok (some (place, rule)) =>
      ({ counted with followed := place :: tally.followed }, .ofCalls rule.verdict rule.calls)

/-- The reaction of the hooks of a map that go by a rule book. -/
def RuleBook.reaction {n : Nat} (book : RuleBook n) (map : Fin n) :
    Reaction n (Memory n) String Int := fun hook memory =>
  let tallies := memory.get map
  match hook with
  | .screening _ =>
      let (screening, script) := react book.screening tallies.screening hook
      (memory.set map.val { tallies with screening } map.isLt, script)
  | .eviction .. =>
      let (eviction, script) := react book.eviction tallies.eviction hook
      (memory.set map.val { tallies with eviction } map.isLt, script)

end ExpiringMap.Rules
