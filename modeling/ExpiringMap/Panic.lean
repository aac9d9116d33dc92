/-!
# Panics

A hook answers or panics.  A panic carries a payload, and a reader of the log sees the
payload only if it is text.
-/

namespace ExpiringMap

/-- What a panic carries: text that was there before, text made for the occasion, or a code
that is no text. -/
inductive Panic
  | fixedText (text : String)
  | builtText (text : String)
  | code (n : Int)
deriving DecidableEq

/-- The payload as a reader of the log sees it. -/
def Panic.message? : Panic → Option String
  | fixedText text | builtText text => some text
  | code _ => none

/-- How something ends that may panic. -/
abbrev Outcome := Except Panic

end ExpiringMap
