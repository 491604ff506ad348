import Streamkit.Fault
import Streamkit.Text.Quoted
import Streamkit.Text.Record

/-!
# Failure handlers

A failure handler observes the error of each failed attempt. A `Handler κ` is a tree: handlers that
do nothing, handlers that log, and leaves of a type `κ` that the caller gives meaning to, chained
in pairs. `Handler.onFailure` runs the leaves from left to right; when one gives up, those to its
left have run and those to its right have not, and every leaf keeps the state it got to.
-/

namespace Streamkit

/-- What a retry reports while it runs. -/
inductive RetryEvent (ε : Type) where
  /-- An attempt has failed. -/
  | attemptFailed (attempt maxAttempts : UInt32)
  /-- The last attempt has failed and its failure has been handled. -/
  | attemptsExhausted (attempts : UInt32)
  /-- A logging handler has counted a failure. -/
  | failureLogged (operation : String) (attempt : UInt32) (error : ε)

/-- The world of a retry: what the leaves of its handler do, and who hears of its events. -/
structure RetryWorld (κ ε σ : Type) where
  /-- A leaf observes an error. -/
  observe : ε → Act (κ × σ) Unit
  /-- An event is reported. -/
  emit : RetryEvent ε → σ → σ

/-- A tree of failure handlers. -/
inductive Handler (κ : Type) where
  | ignore
  /-- Counts the failures of an operation and logs each. -/
  | logging (operation : String) (failures : UInt32)
  /-- A handler of the caller's. -/
  | leaf (k : κ)
  /-- Two handlers, the first always before the second. -/
  | chain (first second : Handler κ)
  deriving DecidableEq

namespace Handler

variable {κ ε σ : Type}

/-- A logging handler that has not seen a failure. -/
def ofOperation (operation : String) : Handler κ := logging operation 0

/-- This handler, then the next one. -/
def andThen (first second : Handler κ) : Handler κ := chain first second

/-- The two handlers of a chain, as they have been left. -/
def parts : Handler κ → Option (Handler κ × Handler κ)
  | chain first second => some (first, second)
  | ignore | logging _ _ | leaf _ => none

/-- Observes a failure. -/
def onFailure (w : RetryWorld κ ε σ) (e : ε) :
    Handler κ → σ → EStateM.Result Fault (Handler κ × σ) Unit
  | ignore, s => .ok () (ignore, s)
  | logging operation failures, s =>
    .ok () (logging operation (failures + 1),
      w.emit (.failureLogged operation (failures + 1) e) s)
  | leaf k, s =>
    match w.observe e (k, s) with
    | .ok () (k, s) => .ok () (leaf k, s)
    | .error f (k, s) => .error f (leaf k, s)
  | chain first second, s =>
    match onFailure w e first s with
    | .error f (first, s) => .error f (chain first second, s)
    | .ok () (first, s) =>
      match onFailure w e second s with
      | .error f (second, s) => .error f (chain first second, s)
      | .ok () (second, s) => .ok () (chain first second, s)

/-- The handler as a record, given the text of the leaves. -/
def debugWith (write : κ → String) : Handler κ → String
  | ignore => "Ignore"
  | logging operation failures =>
    Text.record "Logging" [("operation", Text.quote operation), ("failures", failures.toNat.repr)]
  | leaf k => write k
  | chain first second =>
    Text.record "Chain" [("first", first.debugWith write), ("second", second.debugWith write)]

end Handler

end Streamkit
