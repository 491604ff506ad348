import Streamkit.Maybe

/-!
# Values on one of two sides

`Either α β` holds a payload on the left or on the right. The plain combinators are biased to the
right; those named for the left mirror them. Callbacks run in any monad; each combinator runs at
most one callback, at most once, and only on the payload of its side.
-/

namespace Streamkit

/-- A payload on the left or a payload on the right. -/
inductive Either (α β : Type) where
  | left (payload : α)
  | right (payload : β)
  deriving DecidableEq

namespace Either

variable {α β α' β' γ : Type} {m : Type → Type} [Monad m]

/-! ## Elimination -/

/-- A result for either side. -/
def elimM (onLeft : α → m γ) (onRight : β → m γ) : Either α β → m γ
  | left a => onLeft a
  | right b => onRight b

/-- Exchanges the sides. -/
def swap : Either α β → Either β α
  | left a => right a
  | right b => left b

/-! ## Tests -/

/-- The payload is on the left. -/
def isLeft : Either α β → Bool
  | left _ => true
  | right _ => false

/-- The payload is on the right. -/
def isRight : Either α β → Bool
  | left _ => false
  | right _ => true

/-- The payload is on the right and passes the test. -/
def anyM (p : β → m Bool) : Either α β → m Bool
  | left _ => pure false
  | right b => p b

/-- The payload passes the test if it is on the right. -/
def allM (p : β → m Bool) : Either α β → m Bool
  | left _ => pure true
  | right b => p b

/-! ## Access -/

/-- The left payload, if there is one. -/
def left? : Either α β → Maybe α
  | left a => .present a
  | right _ => .absent

/-- The right payload, if there is one. -/
def right? : Either α β → Maybe β
  | left _ => .absent
  | right b => .present b

/-- The left payload, refused if there is none. -/
def checkedLeft : Either α β → Except AccessError α
  | left a => .ok a
  | right _ => .error (.noSuchElement "Either::get_left")

/-- The right payload, refused if there is none. -/
def checkedRight : Either α β → Except AccessError β
  | left _ => .error (.noSuchElement "Either::get_right")
  | right b => .ok b

/-- The left payload; gives up if there is none. -/
def getLeft : Either α β → Except Fault α
  | left a => .ok a
  | right _ => .error (.otherSide .left)

/-- The right payload; gives up if there is none. -/
def getRight : Either α β → Except Fault β
  | left _ => .error (.otherSide .right)
  | right b => .ok b

/-- The right payload, or else a default. -/
def getD (default : β) : Either α β → β
  | left _ => default
  | right b => b

/-- The right payload, or else a computed default. -/
def getDM (default : m β) : Either α β → m β
  | left _ => default
  | right b => pure b

/-- The right payload, or else one computed from the left payload. -/
def rightOrElseM (f : α → m β) : Either α β → m β
  | left a => f a
  | right b => pure b

/-- The left payload, or else one computed from the right payload. -/
def leftOrElseM (f : β → m α) : Either α β → m α
  | left a => pure a
  | right b => f b

/-- The right payload as a list of at most one item. -/
def toList : Either α β → List β
  | left _ => []
  | right b => [b]

/-- The right payload as a result, the left payload as its error. -/
def toExcept : Either α β → Except α β
  | left a => .error a
  | right b => .ok b

/-- A result on the right, an error on the left. -/
def ofExcept : Except α β → Either α β
  | .error a => left a
  | .ok b => right b

/-! ## Transformation -/

/-- Applies a pure function to the right payload. -/
def map (f : β → β') : Either α β → Either α β'
  | left a => left a
  | right b => right (f b)

/-- Applies a pure function to the left payload. -/
def leftMap (f : α → α') : Either α β → Either α' β
  | left a => left (f a)
  | right b => right b

/-- Applies a function to the right payload. -/
def mapM (f : β → m β') : Either α β → m (Either α β')
  | left a => pure (left a)
  | right b => do return right (← f b)

/-- Applies a function to the left payload. -/
def leftMapM (f : α → m α') : Either α β → m (Either α' β)
  | left a => do return left (← f a)
  | right b => pure (right b)

/-- Another name of `mapM`. -/
abbrev mapRightM (f : β → m β') (e : Either α β) : m (Either α β') := e.mapM f

/-- Another name of `leftMapM`. -/
abbrev mapLeftM (f : α → m α') (e : Either α β) : m (Either α' β) := e.leftMapM f

/-- Applies a function to the payload, one for each side. -/
def bimapM (f : α → m α') (g : β → m β') : Either α β → m (Either α' β')
  | left a => do return left (← f a)
  | right b => do return right (← g b)

/-- Applies a function to the left payload; refused on the right. -/
def checkedMapLeftM (f : α → m γ) : Either α β → m (Except AccessError γ)
  | left a => do return .ok (← f a)
  | right _ => pure (.error (.unsupportedOperation "Either::try_map_left"))

/-- Applies a function to the right payload; refused on the left. -/
def checkedMapRightM (f : β → m γ) : Either α β → m (Except AccessError γ)
  | left _ => pure (.error (.unsupportedOperation "Either::try_map_right"))
  | right b => do return .ok (← f b)

/-- The value itself, if its payload is on the right and passes the test. -/
def filterM (p : β → m Bool) : Either α β → m (Maybe (Either α β))
  | left _ => pure .absent
  | right b => do if ← p b then return .present (right b) else return .absent

/-- Visits the right payload, if there is one. -/
def eachM (visit : β → m Unit) : Either α β → m Unit
  | left _ => pure ()
  | right b => visit b

/-- Replaces a right payload by the result of a function, which may be on either side. -/
def bindM (f : β → m (Either α β')) : Either α β → m (Either α β')
  | left a => pure (left a)
  | right b => f b

/-- Another name of `bindM`. -/
abbrev andThenM (f : β → m (Either α β')) (e : Either α β) : m (Either α β') := e.bindM f

/-- Replaces a left payload by the result of a function, which may be on either side. -/
def orElseM (f : α → m (Either α' β)) : Either α β → m (Either α' β)
  | left a => f a
  | right b => pure (right b)

/-- Removes one level of nesting on the right. -/
def flatten : Either α (Either α β) → Either α β
  | left a => left a
  | right e => e

/-! ## Order and text -/

/-- Left comes before right; payloads on one side compare by its order. -/
def compareBy (orderLeft : α → α → Ordering) (orderRight : β → β → Ordering) :
    Either α β → Either α β → Ordering
  | left a, left b => orderLeft a b
  | left _, right _ => .lt
  | right _, left _ => .gt
  | right a, right b => orderRight a b

/-- The wording of a value, given that of its payloads. -/
def displayWith (showLeft : α → String) (showRight : β → String) : Either α β → String
  | left a => "Either.Left(" ++ showLeft a ++ ")"
  | right b => "Either.Right(" ++ showRight b ++ ")"

/-- The constructor form of a value, given that of its payloads. -/
def debugWith (showLeft : α → String) (showRight : β → String) : Either α β → String
  | left a => "Left(" ++ showLeft a ++ ")"
  | right b => "Right(" ++ showRight b ++ ")"

@[simp] theorem swap_swap (e : Either α β) : e.swap.swap = e := by cases e <;> rfl

end Either

namespace Maybe

variable {α β : Type} {m : Type → Type} [Monad m]

/-- The payload on the left, or a computed one on the right. -/
def toLeftM (right : m β) : Maybe α → m (Either α β)
  | absent => do return .right (← right)
  | present a => pure (.left a)

/-- The payload on the right, or a computed one on the left. -/
def toRightM (left : m β) : Maybe α → m (Either β α)
  | absent => do return .left (← left)
  | present a => pure (.right a)

end Maybe

end Streamkit
