import ExpiringMap.Lock
import ExpiringMap.Hook
import ExpiringMap.Store

/-!
# The settings of a map

A map is built from settings that stay as they are for its whole life.  They begin as the
defaults and are changed one choice at a time; a later choice replaces an earlier one of the
same kind, so the last policy and the last lock stand.  An interval of zero is refused as soon
as it is chosen, room for too many entries only when the map is built.
-/

namespace ExpiringMap

/-- What a map is built from. -/
structure Settings (n : Nat) (S K V : Type) where
  name : Option String := none
  interval : Duration := .second
  locking : Locking := .exclusive
  policy : Policy n S K V := .permissive
  /-- How many entries there is room for to begin with. -/
  capacity : Nat := 0

/-- One choice that differs from the defaults. -/
inductive Choice (n : Nat) (S K V : Type)
  | name (name : String)
  | interval (interval : Duration)
  | locking (locking : Locking)
  | policy (policy : Policy n S K V)
  | capacity (capacity : Nat)

namespace Settings

variable {n : Nat} {S K V : Type}

/-- The settings after one more choice.  There is no interval of zero. -/
def choose (settings : Settings n S K V) : Choice n S K V → Except Misuse (Settings n S K V)
  | .name name => .ok { settings with name := some name }
  | .interval interval =>
      if interval.ns = 0 then .error .zeroInterval else .ok { settings with interval }
  | .locking locking => .ok { settings with locking }
  | .policy policy => .ok { settings with policy }
  | .capacity capacity => .ok { settings with capacity }

/-- The settings of a map that is built, with room in its store for as many entries as they
ask for. -/
def built (settings : Settings n S K V) : Except Misuse (Settings n S K V) := do
  let _ : Store K V ← Store.ofCapacity settings.capacity
  return settings

/-- The settings of a map that is built after all choices, the first of which comes first. -/
def ofChoices (choices : List (Choice n S K V)) : Except Misuse (Settings n S K V) := do
  (← choices.foldlM choose {}).built

/-- A map of these settings as a record of what can be seen from outside. -/
def record (settings : Settings n S K V) (size : Nat) (phase : Phase) : Text.Record where
  title := "TimeoutMap"
  fields :=
    [("name", .optional (settings.name.map Text.quoted)),
     ("len", .word (toString size)),
     ("purge_interval", .word (Text.elapsed settings.interval)),
     ("state", .word phase.title)]

end Settings

end ExpiringMap
