import Streamkit.Fault
import Streamkit.AccessError

/-!
# Values that may be missing

`Maybe α` is a payload or nothing. Its combinators take callbacks in any monad, so a callback may
log, keep state or give up; each combinator runs at most one callback, at most once, and only where
its value is needed.
-/

namespace Streamkit

/-- A payload, or nothing. -/
inductive Maybe (α : Type) where
  | absent
  | present (payload : α)
  deriving DecidableEq, Inhabited

namespace Maybe

variable {α β ε : Type} {m : Type → Type} [Monad m]

/-! ## Construction -/

/-- The payload of an optional value. -/
def ofOption : Option α → Maybe α
  | none => absent
  | some a => present a

/-- A payload, refused if it stands for no value. -/
def checkedM (missing : α → m Bool) (a : α) : m (Except AccessError (Maybe α)) := do
  if ← missing a then return .error .absentValue else return .ok (present a)

/-- A payload, or nothing if it stands for no value. -/
def unlessM (missing : α → m Bool) (a : α) : m (Maybe α) := do
  if ← missing a then return absent else return present a

/-! ## Tests -/

/-- There is a payload. -/
def isPresent : Maybe α → Bool
  | absent => false
  | present _ => true

/-- There is no payload. -/
def isAbsent : Maybe α → Bool
  | absent => true
  | present _ => false

/-- There is a payload and it passes the test. -/
def anyM (p : α → m Bool) : Maybe α → m Bool
  | absent => pure false
  | present a => p a

/-- The payload, if there is one, passes the test. -/
def allM (p : α → m Bool) : Maybe α → m Bool
  | absent => pure true
  | present a => p a

/-! ## Access -/

/-- The payload; gives up if there is none. -/
def get : Maybe α → Except Fault α
  | absent => .error .absentPayload
  | present a => .ok a

/-- The payload, refused if there is none. -/
def checkedGet : Maybe α → Except AccessError α
  | absent => .error (.noSuchElement "Maybe::try_get")
  | present a => .ok a

/-- The payload, or else a default. -/
def getD (default : α) : Maybe α → α
  | absent => default
  | present a => a

/-- The payload, or else a computed default. -/
def getDM (default : m α) : Maybe α → m α
  | absent => default
  | present a => pure a

/-- The payload; gives up with a computed message if there is none. -/
def getOrRaiseM [MonadExceptOf Fault m] (message : m String) : Maybe α → m α
  | absent => do throw (Fault.raised (← message))
  | present a => pure a

/-- The payload, or else a computed error. -/
def toExceptM (error : m ε) : Maybe α → m (Except ε α)
  | absent => do return .error (← error)
  | present a => pure (.ok a)

/-- The payload as an optional value. -/
def toOption : Maybe α → Option α
  | absent => none
  | present a => some a

/-- The payload as a list of at most one item. -/
def toList : Maybe α → List α
  | absent => []
  | present a => [a]

/-! ## Transformation -/

/-- Applies a pure function to the payload. -/
def map (f : α → β) : Maybe α → Maybe β
  | absent => absent
  | present a => present (f a)

/-- Applies a function to the payload. -/
def mapM (f : α → m β) : Maybe α → m (Maybe β)
  | absent => pure absent
  | present a => do return present (← f a)

/-- Replaces the payload by the result of a function, which may be nothing. -/
def bindM (f : α → m (Maybe β)) : Maybe α → m (Maybe β)
  | absent => pure absent
  | present a => f a

/-- Keeps the payload if it passes the test. -/
def filterM (p : α → m Bool) : Maybe α → m (Maybe α)
  | absent => pure absent
  | present a => do if ← p a then return present a else return absent

/-- This value, or the other one if there is no payload. -/
def orElse : Maybe α → Maybe α → Maybe α
  | absent, other => other
  | present a, _ => present a

/-- This value, or a computed one if there is no payload. -/
def orElseM (other : m (Maybe α)) : Maybe α → m (Maybe α)
  | absent => other
  | present a => pure (present a)

/-- Removes one level of nesting. -/
def flatten : Maybe (Maybe α) → Maybe α
  | absent => absent
  | present a => a

/-! ## Elimination -/

/-- A result for either case. -/
def elimM (onAbsent : m β) (onPresent : α → m β) : Maybe α → m β
  | absent => onAbsent
  | present a => onPresent a

/-- Visits the payload, if there is one. -/
def eachM (visit : α → m Unit) : Maybe α → m Unit
  | absent => pure ()
  | present a => visit a

/-! ## Order and text -/

/-- Nothing comes before every payload; payloads compare by the given order. -/
def compareBy (order : α → α → Ordering) : Maybe α → Maybe α → Ordering
  | absent, absent => .eq
  | absent, present _ => .lt
  | present _, absent => .gt
  | present a, present b => order a b

/-- The wording of a value, given that of its payload. -/
def displayWith (write : α → String) : Maybe α → String
  | absent => "none()"
  | present a => "some(" ++ write a ++ ")"

/-- The constructor form of a value, given that of its payload. -/
def debugWith (write : α → String) : Maybe α → String
  | absent => "Absent"
  | present a => "Present(" ++ write a ++ ")"

end Maybe

end Streamkit
