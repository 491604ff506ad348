import Streamkit.Value.Order
import Streamkit.Value.Text

/-!
# Assertions on the shape of a value

Each assertion gives up, with a message that shows the payloads in constructor form, unless the
value has the asserted shape and, where one is given, the expected payload.
-/

namespace Streamkit.Check

/-- Gives up with a message. -/
def fail (message : String) : Except Fault Unit := .error (.raised message)

/-- The payload is the expected one. -/
def same (payload expected : Value) : Except Fault Unit :=
  if payload = expected then .ok ()
  else fail ("assertion `left == right` failed\n  left: " ++ payload.debug ++ "\n right: " ++
    expected.debug)

/-- The payload, found where it was asserted to be, is the expected one, if there is one. -/
def found (payload : Value) : Option Value → Except Fault Unit
  | none => .ok ()
  | some expected => same payload expected

/-- A name with the expected payload, if there is one. -/
def wanted (name : String) : Option Value → String
  | none => name
  | some expected => name ++ "(" ++ expected.debug ++ ")"

/-- The value is present. -/
def isPresent (expected : Option Value) : Maybe Value → Except Fault Unit
  | .present v => found v expected
  | .absent => fail ("Expected " ++ wanted "Present" expected ++ ", got Absent")

/-- The value is absent. -/
def isAbsent : Maybe Value → Except Fault Unit
  | .present v => fail ("Expected Absent, got Present: " ++ v.debug)
  | .absent => .ok ()

/-- The value is on the left. -/
def isLeft (expected : Option Value) : Either Value Value → Except Fault Unit
  | .left v => found v expected
  | .right v => fail ("Expected " ++ wanted "Left" expected ++ ", got Right: " ++ v.debug)

/-- The value is on the right. -/
def isRight (expected : Option Value) : Either Value Value → Except Fault Unit
  | .right v => found v expected
  | .left v => fail ("Expected " ++ wanted "Right" expected ++ ", got Left: " ++ v.debug)

end Streamkit.Check
