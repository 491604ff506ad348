import Streamkit.Text.Quoted
import Streamkit.Text.Record

/-!
# Access errors

Checked accessors answer with an `AccessError` instead of giving up. `display` words the error,
`debug` writes it as a record.
-/

namespace Streamkit

/-- What a checked access was refused for. -/
inductive AccessError where
  /-- There is no payload where the named accessor looked. -/
  | noSuchElement (context : String)
  /-- The named operation does not apply to the side the value is on. -/
  | unsupportedOperation (operation : String)
  /-- The value stands for no value at all. -/
  | absentValue
  deriving DecidableEq

namespace AccessError

/-- The kind of the error. -/
def kind : AccessError → String
  | noSuchElement _ => "NoSuchElement"
  | unsupportedOperation _ => "UnsupportedOperation"
  | absentValue => "AbsentValue"

/-- The wording of the error. -/
def display : AccessError → String
  | noSuchElement context => "no such element: " ++ context ++ " found nothing to return"
  | unsupportedOperation operation =>
    "unsupported operation: " ++ operation ++ " on the other side"
  | absentValue => "cannot construct a present value from an absent one"

/-- The error as a record. -/
def debug (e : AccessError) : String :=
  match e with
  | noSuchElement context => Text.record e.kind [("context", Text.quote context)]
  | unsupportedOperation operation => Text.record e.kind [("operation", Text.quote operation)]
  | absentValue => e.kind

/-- The error reports a missing payload. -/
def isNoSuchElement : AccessError → Bool
  | noSuchElement _ => true
  | _ => false

/-- The error reports an operation on the wrong side. -/
def isUnsupported : AccessError → Bool
  | unsupportedOperation _ => true
  | _ => false

end AccessError

end Streamkit
