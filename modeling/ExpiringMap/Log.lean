import ExpiringMap.Panic

/-!
# Log records

What a map writes to the log.  A record is kept as what it reports; its level and its text
follow from that.  The name of a map, if it has one, stands in front of all it writes.
-/

namespace ExpiringMap

/-- How serious a record is. -/
inductive LogLevel
  | trace
  | debug
  | warn
  | error
deriving DecidableEq

def LogLevel.word : LogLevel → String
  | trace => "trace"
  | debug => "debug"
  | warn => "warn"
  | error => "error"

/-- What a map reports. -/
inductive LogRecord
  /-- A pass begins on a store of `count` entries. -/
  | entryCount (count : Nat)
  /-- A pass that had `candidates` candidates took out `evicted` of them. -/
  | passSummary (evicted candidates : Nat)
  | runNotAllowed
  | runBegins
  | passPanicked (panic : Panic)
  | hookPanicked (panic : Panic)
deriving DecidableEq

/-- What stands in front of the records of a map. -/
def nameTag : Option String → String
  | none => ""
  | some name => "[" ++ name ++ "] "

namespace LogRecord

def level : LogRecord → LogLevel
  | entryCount _ | runNotAllowed | runBegins => .trace
  | passSummary .. => .debug
  | passPanicked _ => .warn
  | hookPanicked _ => .error

/-- The end of a sentence that reports a panic. -/
def panicClause (panic : Panic) : String :=
  match panic.message? with
  | some text => " panicked at '" ++ text ++ "'. "
  | none => " panicked. "

/-- The text of a record, without the name of the map. -/
def text : LogRecord → String
  | entryCount count => "There are " ++ toString count ++ " entries in the timeout map"
  | passSummary evicted candidates =>
      "Evicted " ++ toString evicted ++ " of " ++ toString candidates ++ " expired entries"
  | runNotAllowed => "The purge task is not allowed to run"
  | runBegins => "Running the purge task to see if any entries have timed out"
  | passPanicked panic =>
      "A purge pass" ++ panicClause panic ++ "The next pass will run as scheduled"
  | hookPanicked panic =>
      "The eviction hook" ++ panicClause panic ++ "The entry will not be evicted"

/-- The text of a record of a map of that name. -/
def message (name : Option String) (record : LogRecord) : String :=
  nameTag name ++ record.text

end LogRecord

end ExpiringMap
