import Streamkit.Closure
import Streamkit.Retry.Policy

/-!
# Sessions with a retry policy

A session holds at most one policy and performs requests one after the other. The operations are
scripts, the leaves of the handlers are `Observer`s, and the journal records what the attempts, the
observers and the policy did. Each `RetryReport` tells the answer to a request, its part of the
journal, and the policy that is left.
-/

namespace Streamkit

/-- A failure handler with a label or a budget. -/
inductive Observer where
  /-- Records each error. -/
  | call (label : String)
  /-- Records each error and remembers it. -/
  | tally (label : String) (seen : Array Value)
  /-- Gives up once its budget is spent. -/
  | quota (left : Nat)
  deriving DecidableEq

/-- The outcome of one attempt. -/
inductive ScriptedAttempt where
  | succeed (v : Value)
  | fail (e : Value)
  | giveUp (message : String)
  /-- Succeeds with a function of the input. -/
  | succeedWith (f : Fn)
  /-- Fails with a function of the input. -/
  | failWith (f : Fn)

/-- An operation: the outcome of each attempt, the last one for all further attempts. -/
structure RetryScript where
  /-- The outcome of the first attempt. -/
  head : ScriptedAttempt
  /-- The outcomes of the attempts after it. -/
  tail : List ScriptedAttempt

/-- An entry of the journal. -/
inductive JournalEntry where
  /-- An attempt was made, with an input if the operation takes one. -/
  | attempted (attempt : Nat) (input : Option Value)
  /-- An observer recorded an error. -/
  | called (label : String) (e : Value)
  /-- An observer recorded an error that it remembers. -/
  | tallied (label : String) (e : Value)
  /-- The policy reported an event. -/
  | event (e : RetryEvent Value)

/-- The attempts made for this request, and what has happened. -/
structure Journal where
  attempts : Nat
  /-- What has happened, in order. -/
  entries : Array JournalEntry

/-- A request. -/
inductive RetryRequest where
  | new (maxAttempts : UInt32)
  | checkedNew (maxAttempts : UInt32)
  | withHandler (h : Handler Observer)
  | takeHandler
  | call (script : RetryScript)
  | apply (input : Value) (script : RetryScript)
  /-- Calls on a copy of the policy. -/
  | callClone (script : RetryScript)
  | retry (maxAttempts : UInt32) (script : RetryScript)
  | retryWith (maxAttempts : UInt32) (script : RetryScript) (h : Handler Observer)
  | debugNew (maxAttempts : UInt32)
  | eqNew (maxAttempts maxAttempts' : UInt32)

/-- The answer to a request. -/
inductive RetryReply where
  | nothing
  | refused (e : PolicyError)
  | result (r : Except Value Value)
  | handler (h : Handler Observer)
  | cloned (r : Except Value Value) (h : Handler Observer)
  | text (s : String)
  | truth (b : Bool)
  /-- The request needs a policy and there is none. -/
  | noPolicy

namespace RetryScript

/-- The outcome of attempt `n`, counted from 0. -/
def outcome (script : RetryScript) (n : Nat) : ScriptedAttempt :=
  (script.head :: script.tail).getD n (script.tail.getLastD script.head)

/-- What an attempt does. -/
def run (input : Option Value) : ScriptedAttempt → Except Fault (Except Value Value)
  | .succeed v => .ok (.ok v)
  | .fail e => .ok (.error e)
  | .giveUp message => .error (.raised message)
  | .succeedWith f => do return .ok (← f.eval (input.getD .unit))
  | .failWith f => do return .error (← f.eval (input.getD .unit))

/-- The next attempt of a scripted operation. -/
def attempt (script : RetryScript) (input : Option Value) : Act Journal (Except Value Value) :=
  fun { attempts, entries } =>
    Act.ofExcept (run input (script.outcome attempts))
      ⟨attempts + 1, entries.push (.attempted (attempts + 1) input)⟩

end RetryScript

namespace Observer

/-- Observes an error. -/
def observe (e : Value) : Act (Observer × Journal) Unit := fun (o, j) =>
  match o with
  | call label => .ok () (o, { j with entries := j.entries.push (.called label e) })
  | tally label seen =>
    .ok () (tally label (seen.push e), { j with entries := j.entries.push (.tallied label e) })
  | quota 0 => .error (.raised "quota exhausted") (o, j)
  | quota (left + 1) => .ok () (quota left, j)

/-- The world of a session: observers, and events in the journal. -/
def world : RetryWorld Observer Value Journal where
  observe := observe
  emit e j := { j with entries := j.entries.push (.event e) }

/-- The observer as a record. -/
def debug : Observer → String
  | call label => Text.record "Call" [("label", Text.quote label)]
  | tally label seen =>
    Text.record "Tally" [("label", Text.quote label), ("seen", (Value.list seen.toList).debug)]
  | quota left => Text.record "Quota" [("left", left.repr)]

end Observer

/-- The policy, if there is one, and the journal. -/
structure RetrySession where
  policy : Option (Policy Observer)
  journal : Journal

namespace RetrySession

/-- No policy and an empty journal. -/
def start : RetrySession := ⟨none, ⟨0, #[]⟩⟩

/-- Runs on the journal. -/
def onJournal {α : Type} (act : Act Journal α) : Act RetrySession α := fun s =>
  match act s.journal with
  | .ok a journal => .ok a { s with journal }
  | .error e journal => .error e { s with journal }

/-- Goes on with the policy. -/
def withPolicy (act : Policy Observer → Act RetrySession RetryReply) :
    Act RetrySession RetryReply := do
  match (← get).policy with
  | none => return .noPolicy
  | some p => act p

/-- Keeps a policy. -/
def keep (p : Policy Observer) : Act RetrySession Unit := modify ({ · with policy := some p })

/-- Calls a policy with a scripted operation, keeps it if `kept`, and gives the result and the
policy's handler. -/
def callPolicy (kept : Bool) (p : Policy Observer) (op : Act Journal (Except Value Value)) :
    Act RetrySession (Except Value Value × Handler Observer) := fun s =>
  let left := fun (p' : Policy Observer) => if kept then some p' else s.policy
  match Policy.call Observer.world op (p, s.journal) with
  | .ok r (p', journal) => .ok (r, p'.handler) ⟨left p', journal⟩
  | .error e (p', journal) => .error e ⟨left p', journal⟩

/-- A new policy. -/
def fresh (maxAttempts : UInt32) : Act RetrySession (Policy Observer) :=
  Act.ofExcept (Policy.ofBound maxAttempts)

/-- Performs a request. -/
def perform : RetryRequest → Act RetrySession RetryReply
  | .new n => do
    keep (← fresh n)
    return .nothing
  | .checkedNew n => do
    match Policy.checked n with
    | .error e => return .refused e
    | .ok p =>
      keep p
      return .nothing
  | .withHandler h => withPolicy fun p => do
    keep (p.withHandler h)
    return .nothing
  | .takeHandler => withPolicy fun p => do
    modify ({ · with policy := none })
    return .handler p.handler
  | .call script => withPolicy fun p => do
    return .result (← callPolicy true p (script.attempt none)).1
  | .apply input script => withPolicy fun p => do
    return .result (← callPolicy true p (script.attempt (some input))).1
  | .callClone script => withPolicy fun p => do
    let (r, h) ← callPolicy false p (script.attempt none)
    return .cloned r h
  | .retry n script => do
    return .result (← onJournal (Policy.retry Observer.world (script.attempt none) n))
  | .retryWith n script h => do
    return .result (← onJournal (Policy.retryWith Observer.world (script.attempt none) n h))
  | .debugNew n => do return .text ((← fresh n).debugWith Observer.debug)
  | .eqNew n m => do
    let p ← fresh n
    return .truth (p.same (← fresh m))

end RetrySession

/-- The answer to a request and the state it leaves. -/
structure RetryReport where
  /-- The answer, or the fault the request ended in. -/
  reply : Except Fault RetryReply
  /-- What happened for this request. -/
  entries : Array JournalEntry
  /-- The policy that is left. -/
  policy : Option (Policy Observer)

namespace RetrySession

/-- Performs requests one after the other; attempts are counted anew for each. -/
def run : List RetryRequest → RetrySession → List RetryReport
  | [], _ => []
  | request :: requests, { policy, journal } =>
    let before := journal.entries.size
    let (reply, s) := (perform request).attempt ⟨policy, { journal with attempts := 0 }⟩
    ⟨reply, s.journal.entries.extract before, s.policy⟩ :: run requests s

end RetrySession

end Streamkit
