/-!
# Faults

A computation that gives up ends in a `Fault`, which records the cause; `Fault.message` is its
wording. `Act σ` is the monad of computations over a state `σ` that may give up: a fault keeps the
state reached so far, so whatever was done before it stays done.
-/

namespace Streamkit

/-- One of the two sides of an `Either`. -/
inductive Side where
  | left
  | right
  deriving DecidableEq

namespace Side

/-- The opposite side. -/
def other : Side → Side
  | left => right
  | right => left

/-- The side's name, capitalised. -/
def name : Side → String
  | left => "Left"
  | right => "Right"

/-- The side's name in lower case. -/
def label : Side → String
  | left => "left"
  | right => "right"

@[simp] theorem other_other (s : Side) : s.other.other = s := by cases s <;> rfl

end Side

/-- Why a computation gave up. -/
inductive Fault where
  /-- A closure, a source or an assertion gave up with a message of its own. -/
  | raised (message : String)
  /-- The payload of an absent value was demanded. -/
  | absentPayload
  /-- The payload of one side was demanded of a value that is on the other side. -/
  | otherSide (side : Side)
  /-- A projection's payload was demanded of a value that is on the other side. -/
  | projectionOtherSide (side : Side)
  /-- A position was demanded of a memo whose source gave up before producing it. -/
  | memoFailed
  /-- A retry policy without any attempt was demanded. -/
  | zeroAttempts
  deriving DecidableEq

/-- The wording of a fault. -/
def Fault.message : Fault → String
  | raised message => message
  | absentPayload => "called `Maybe::get()` on an `Absent` value"
  | otherSide side =>
    "called `Either::unwrap_" ++ side.label ++ "()` on a `" ++ side.other.name ++ "` value"
  | projectionOtherSide side =>
    "called `" ++ side.name ++ "Projection::get()` on a `" ++ side.other.name ++ "` value"
  | memoFailed => "memoized source panicked while producing an element"
  | zeroAttempts => "retry requires at least one attempt"

/-- Computations over a state `σ` that may give up; a fault keeps the state reached so far. -/
abbrev Act (σ : Type) := EStateM Fault σ

namespace Act

variable {σ τ α : Type}

/-- A result that was computed without the state. -/
def ofExcept : Except Fault α → Act σ α
  | .ok a => pure a
  | .error e => throw e

/-- Runs on the first component of the state. -/
def onFst (x : Act σ α) : Act (σ × τ) α := fun (s, t) =>
  match x s with
  | .ok a s' => .ok a (s', t)
  | .error e s' => .error e (s', t)

/-- Runs on the second component of the state. -/
def onSnd (x : Act τ α) : Act (σ × τ) α := fun (s, t) =>
  match x t with
  | .ok a t' => .ok a (s, t')
  | .error e t' => .error e (s, t')

/-- Runs to the end, handing over a fault as a result. -/
def attempt (x : Act σ α) : σ → Except Fault α × σ := fun s =>
  match x s with
  | .ok a s' => (.ok a, s')
  | .error e s' => (.error e, s')

@[simp] theorem get_bind (f : σ → Act σ α) (s : σ) : (get >>= f) s = f s s := rfl

@[simp] theorem ofExcept_ok (a : α) : (ofExcept (.ok a) : Act σ α) = pure a := rfl

@[simp] theorem ofExcept_error (e : Fault) : (ofExcept (.error e) : Act σ α) = throw e := rfl

end Act

end Streamkit
