import Streamkit.Either

/-!
# One-sided views of a two-sided value

A `LeftProjection` looks at the left side of an `Either` and a `RightProjection` at the right side,
with the vocabulary of `Maybe`. What is on the other side passes through unchanged. `filterM` keeps
a value whose payload is on the other side, unlike the right-biased `Either.filterM`.
-/

namespace Streamkit

variable {α β γ : Type} {m : Type → Type} [Monad m]

/-- A value seen from its left side. -/
structure LeftProjection (α β : Type) where
  either : Either α β
  deriving DecidableEq

/-- A value seen from its right side. -/
structure RightProjection (α β : Type) where
  either : Either α β
  deriving DecidableEq

/-- The view of the left side. -/
def Either.projectLeft (e : Either α β) : LeftProjection α β := ⟨e⟩

/-- The view of the right side. -/
def Either.projectRight (e : Either α β) : RightProjection α β := ⟨e⟩

/-! ## The left side -/

namespace LeftProjection

/-- The payload is on the left. -/
def isDefined (v : LeftProjection α β) : Bool := v.either.isLeft

/-- The left payload, if there is one. -/
def toMaybe (v : LeftProjection α β) : Maybe α := v.either.left?

/-- The left payload; gives up if there is none. -/
def get : LeftProjection α β → Except Fault α
  | ⟨.left a⟩ => .ok a
  | ⟨.right _⟩ => .error (.projectionOtherSide .left)

/-- The left payload, refused if there is none. -/
def checkedGet : LeftProjection α β → Except AccessError α
  | ⟨.left a⟩ => .ok a
  | ⟨.right _⟩ => .error (.noSuchElement "LeftProjection::try_get")

/-- The left payload, or else a default. -/
def getD (default : α) : LeftProjection α β → α
  | ⟨.left a⟩ => a
  | ⟨.right _⟩ => default

/-- The payload is on the left and passes the test. -/
def anyM (p : α → m Bool) : LeftProjection α β → m Bool
  | ⟨.left a⟩ => p a
  | ⟨.right _⟩ => pure false

/-- The payload passes the test if it is on the left. -/
def allM (p : α → m Bool) : LeftProjection α β → m Bool
  | ⟨.left a⟩ => p a
  | ⟨.right _⟩ => pure true

/-- Visits the left payload, if there is one. -/
def eachM (visit : α → m Unit) : LeftProjection α β → m Unit
  | ⟨.left a⟩ => visit a
  | ⟨.right _⟩ => pure ()

/-- Applies a function to the left payload. -/
def mapM (f : α → m γ) (v : LeftProjection α β) : m (Either γ β) := v.either.leftMapM f

/-- Replaces a left payload by the result of a function, which may be on either side. -/
def bindM (f : α → m (Either γ β)) (v : LeftProjection α β) : m (Either γ β) := v.either.orElseM f

/-- The whole value, unless its payload is on the left and fails the test. -/
def filterM (p : α → m Bool) (v : LeftProjection α β) : m (Maybe (Either α β)) := do
  if ← v.allM p then return .present v.either else return .absent

/-- The left payload as a list of at most one item. -/
def toList (v : LeftProjection α β) : List α := v.toMaybe.toList

/-- The view as a record, given the forms of the payloads. -/
def debugWith (showLeft : α → String) (showRight : β → String) (v : LeftProjection α β) : String :=
  Text.record "LeftProjection" [("either", v.either.debugWith showLeft showRight)]

end LeftProjection

/-! ## The right side -/

namespace RightProjection

/-- The payload is on the right. -/
def isDefined (v : RightProjection α β) : Bool := v.either.isRight

/-- The right payload, if there is one. -/
def toMaybe (v : RightProjection α β) : Maybe β := v.either.right?

/-- The right payload; gives up if there is none. -/
def get : RightProjection α β → Except Fault β
  | ⟨.left _⟩ => .error (.projectionOtherSide .right)
  | ⟨.right b⟩ => .ok b

/-- The right payload, refused if there is none. -/
def checkedGet : RightProjection α β → Except AccessError β
  | ⟨.left _⟩ => .error (.noSuchElement "RightProjection::try_get")
  | ⟨.right b⟩ => .ok b

/-- The right payload, or else a default. -/
def getD (default : β) (v : RightProjection α β) : β := v.either.getD default

/-- The payload is on the right and passes the test. -/
def anyM (p : β → m Bool) (v : RightProjection α β) : m Bool := v.either.anyM p

/-- The payload passes the test if it is on the right. -/
def allM (p : β → m Bool) (v : RightProjection α β) : m Bool := v.either.allM p

/-- Visits the right payload, if there is one. -/
def eachM (visit : β → m Unit) (v : RightProjection α β) : m Unit := v.either.eachM visit

/-- Applies a function to the right payload. -/
def mapM (f : β → m γ) (v : RightProjection α β) : m (Either α γ) := v.either.mapM f

/-- Replaces a right payload by the result of a function, which may be on either side. -/
def bindM (f : β → m (Either α γ)) (v : RightProjection α β) : m (Either α γ) := v.either.bindM f

/-- The whole value, unless its payload is on the right and fails the test. -/
def filterM (p : β → m Bool) (v : RightProjection α β) : m (Maybe (Either α β)) := do
  if ← v.allM p then return .present v.either else return .absent

/-- The right payload as a list of at most one item. -/
def toList (v : RightProjection α β) : List β := v.toMaybe.toList

/-- The view as a record, given the forms of the payloads. -/
def debugWith (showLeft : α → String) (showRight : β → String) (v : RightProjection α β) :
    String :=
  Text.record "RightProjection" [("either", v.either.debugWith showLeft showRight)]

end RightProjection

end Streamkit
