import Streamkit.Retry.Handler

/-!
# Retry policies

A policy runs an operation until it succeeds, at most `maxAttempts` times, and shows the error of
every failed attempt to its handler. `Policy.call` reports each failed attempt before it is
handled, and the exhaustion of the attempts after the last failure has been handled; the last error
is returned as it is. A fault of the operation or of the handler ends the call at once, and the
policy keeps the handler as it was left.
-/

namespace Streamkit

/-- What is wrong with the bound of a policy. -/
inductive PolicyError where
  /-- No attempt would be made. -/
  | zeroAttempts
  deriving DecidableEq

namespace PolicyError

/-- The fault that the error becomes where it is not checked. -/
def toFault : PolicyError → Fault
  | zeroAttempts => .zeroAttempts

/-- The kind of the error. -/
def kind : PolicyError → String
  | zeroAttempts => "ZeroAttempts"

/-- The wording of the error. -/
def display (e : PolicyError) : String := e.toFault.message

end PolicyError

/-- A bound on the attempts, at least one, and a handler of the failures. -/
structure Policy (κ : Type) where
  /-- The most attempts that a call makes. -/
  maxAttempts : UInt32
  /-- The handler that observes the failures. -/
  handler : Handler κ
  /-- At least one attempt is made. -/
  maxAttempts_pos : 0 < maxAttempts

namespace Policy

variable {κ ε σ α β : Type}

/-- A policy that ignores failures, refused without any attempt. -/
def checked (maxAttempts : UInt32) : Except PolicyError (Policy κ) :=
  if h : 0 < maxAttempts then .ok ⟨maxAttempts, .ignore, h⟩ else .error .zeroAttempts

/-- A policy that ignores failures; gives up without any attempt. -/
def ofBound (maxAttempts : UInt32) : Except Fault (Policy κ) :=
  (checked maxAttempts).mapError PolicyError.toFault

/-- The policy with another handler. -/
def withHandler (handler : Handler β) (p : Policy κ) : Policy β :=
  ⟨p.maxAttempts, handler, p.maxAttempts_pos⟩

/-- Makes the attempts from `attempt` on. -/
def attemptFrom (w : RetryWorld κ ε σ) (op : Act σ (Except ε α)) (maxAttempts attempt : UInt32)
    (handler : Handler κ) (s : σ) : EStateM.Result Fault (Handler κ × σ) (Except ε α) :=
  match op s with
  | .error f s => .error f (handler, s)
  | .ok (.ok a) s => .ok (.ok a) (handler, s)
  | .ok (.error e) s =>
    match handler.onFailure w e (w.emit (.attemptFailed attempt maxAttempts) s) with
    | .error f (handler, s) => .error f (handler, s)
    | .ok () (handler, s) =>
      if attempt < maxAttempts then attemptFrom w op maxAttempts (attempt + 1) handler s
      else .ok (.error e) (handler, w.emit (.attemptsExhausted attempt) s)
termination_by maxAttempts.toNat - attempt.toNat
decreasing_by
  rename_i h
  have h : attempt.toNat < maxAttempts.toNat := UInt32.lt_iff_toNat_lt.1 h
  have hmax := maxAttempts.toNat_lt
  have hsucc : (attempt + 1).toNat = attempt.toNat + 1 := by
    rw [UInt32.toNat_add]
    exact Nat.mod_eq_of_lt (show attempt.toNat + 1 < 2 ^ 32 by omega)
  omega

/-- Runs the operation until it succeeds or the attempts are used up. -/
def call (w : RetryWorld κ ε σ) (op : Act σ (Except ε α)) : Act (Policy κ × σ) (Except ε α) :=
  fun (p, s) =>
    match attemptFrom w op p.maxAttempts 1 p.handler s with
    | .ok r (handler, s) => .ok r (p.withHandler handler, s)
    | .error f (handler, s) => .error f (p.withHandler handler, s)

/-- Runs the operation with the same input on every attempt. -/
def apply (w : RetryWorld κ ε σ) (input : β) (op : β → Act σ (Except ε α)) :
    Act (Policy κ × σ) (Except ε α) :=
  call w (op input)

/-- Runs the operation under a new policy with the given handler. -/
def retryWith (w : RetryWorld κ ε σ) (op : Act σ (Except ε α)) (maxAttempts : UInt32)
    (handler : Handler κ) : Act σ (Except ε α) := fun s =>
  match ofBound (κ := κ) maxAttempts with
  | .error f => .error f s
  | .ok p =>
    match call w op (p.withHandler handler, s) with
    | .ok r (_, s) => .ok r s
    | .error f (_, s) => .error f s

/-- Runs the operation under a new policy that ignores failures. -/
def retry (w : RetryWorld κ ε σ) (op : Act σ (Except ε α)) (maxAttempts : UInt32) :
    Act σ (Except ε α) :=
  retryWith w op maxAttempts .ignore

/-- The policies have the same bound and equal handlers. -/
def same [DecidableEq κ] (p q : Policy κ) : Bool :=
  p.maxAttempts == q.maxAttempts && p.handler == q.handler

/-- The policy as a record, given the text of the handler's leaves. -/
def debugWith (write : κ → String) (p : Policy κ) : String :=
  Text.record "Retry" [("max_attempts", p.maxAttempts.toNat.repr),
    ("handler", p.handler.debugWith write)]

end Policy

end Streamkit
