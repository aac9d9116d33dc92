import ExpiringMap.Panic
import ExpiringMap.Request

/-!
# Eviction policies

A policy has two hooks.  The screening hook is shown every expired entry and may veto its
eviction; the eviction hook is then told of the entry and confirms or refuses.  A hook may
remember things from call to call, and may make requests of its own before it answers, even
of the map whose pass is calling it: what it does is a script, which goes on in the light of
each answer, or panic, and of what the hooks called in between have made of their memory.
-/

namespace ExpiringMap

/-- A call of a hook, with what it is shown. -/
inductive Hook (K V : Type)
  | screening (entry : Entry K V)
  | eviction (key : K) (value : V)
deriving DecidableEq

/-- What a hook does with the memory `S`: it answers, or it makes a call and goes on. -/
inductive Script (n : Nat) (S K V : Type)
  | answer (verdict : Outcome Bool)
  | call (call : Call n K V) (remember : Outcome (Answer V) → S → S)
      (next : Outcome (Answer V) → S → Script n S K V)

/-- A script that makes calls one after the other and answers in the end.  A call that panics
ends it with that panic. -/
def Script.ofCalls {n : Nat} {S K V : Type} (verdict : Outcome Bool) :
    List (Call n K V) → Script n S K V
  | [] => .answer verdict
  | made :: rest =>
      .call made (fun _ memory => memory) fun outcome _ =>
        match outcome with
        | .ok _ => ofCalls verdict rest
        | .error panic => .answer (.error panic)

/-- How a hook takes a call: it changes its memory and begins its script. -/
abbrev Reaction (n : Nat) (S K V : Type) := Hook K V → S → S × Script n S K V

/-- The hooks of a map. -/
inductive Policy (n : Nat) (S K V : Type)
  /-- No hook: every expired entry is evicted. -/
  | permissive
  /-- The eviction hook alone. -/
  | listener (reaction : Reaction n S K V)
  /-- Both hooks. -/
  | full (reaction : Reaction n S K V)

/-- The reaction to a hook, if the policy has that hook. -/
def Policy.reaction? {n : Nat} {S K V : Type} (policy : Policy n S K V) :
    Hook K V → Option (Reaction n S K V)
  | .screening _ =>
      match policy with
      | .full reaction => some reaction
      | .permissive | .listener _ => none
  | .eviction .. =>
      match policy with
      | .full reaction | .listener reaction => some reaction
      | .permissive => none

end ExpiringMap
