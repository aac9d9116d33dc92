/-!
# Misuse

Arguments that no state of a map could make acceptable.
-/

namespace ExpiringMap

/-- What a caller got wrong. -/
inductive Misuse
  | unknownPhase (code : Nat)
  | zeroInterval
  | noThreads
  /-- Room for more entries than fit into memory. -/
  | capacityOverflow
  /-- A delay that reaches a moment which cannot be named. -/
  | delayOverflow
deriving DecidableEq

def Misuse.message : Misuse → String
  | .unknownPhase code => "No such ServiceState variant for " ++ toString code
  | .zeroInterval => "purge interval must be positive"
  | .noThreads => "num_threads must be greater than 0"
  | .capacityOverflow => "Hash table capacity overflow"
  | .delayOverflow => "overflow when adding duration to instant"

end ExpiringMap
