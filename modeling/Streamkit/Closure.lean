import Streamkit.Value.Order
import Streamkit.Value.Text

/-!
# Closures on values

A small language of functions (`Fn`) and predicates (`Pred`) on values, as data, with their meaning
`Fn.eval` and `Pred.eval`. Only `raise` makes an evaluation give up.
-/

namespace Streamkit

/-- A predicate on values. -/
inductive Pred where
  | always (answer : Bool)
  | even
  | lt (bound : Value)
  | gt (bound : Value)
  | eq (value : Value)
  /-- An empty text or list. -/
  | empty
  | not (p : Pred)
  | raise (message : String)

/-- A function on values. -/
inductive Fn where
  | id
  /-- Adds to an integer, modulo its range. -/
  | add (n : Int64)
  /-- Multiplies an integer, modulo its range. -/
  | mul (n : Int64)
  /-- The number of characters of a text or of items of a list. -/
  | len
  /-- Reverses a text or a list. -/
  | rev
  /-- The wording of a value, as a text. -/
  | display
  | const (value : Value)
  | present
  | left
  | right
  | cond (p : Pred) (f g : Fn)
  /-- The first function, then the second. -/
  | seq (f g : Fn)
  | raise (message : String)

namespace Pred

/-- The answer of a predicate. -/
def eval : Pred → Value → Except Fault Bool
  | always answer, _ => .ok answer
  | even, .int i => .ok (i.toInt % 2 == 0)
  | even, _ => .ok false
  | lt bound, v => .ok (v.compare bound == .lt)
  | gt bound, v => .ok (v.compare bound == .gt)
  | eq value, v => .ok (v == value)
  | empty, .text s => .ok s.isEmpty
  | empty, .list vs => .ok vs.isEmpty
  | empty, _ => .ok false
  | not p, v => (p.eval v).map Bool.not
  | raise message, _ => .error (.raised message)

end Pred

namespace Fn

/-- The number of characters of a text or of items of a list; other values as they are. -/
def length : Value → Value
  | .text s => Value.ofNat s.length
  | .list vs => Value.ofNat vs.length
  | v => v

/-- A text or a list in reverse; other values as they are. -/
def reverse : Value → Value
  | .text s => .text (String.ofList s.toList.reverse)
  | .list vs => .list vs.reverse
  | v => v

/-- Applies arithmetic to an integer; other values as they are. -/
def onInt (f : Int64 → Int64) : Value → Value
  | .int i => .int (f i)
  | v => v

/-- The result of a function. -/
def eval : Fn → Value → Except Fault Value
  | id, v => .ok v
  | add n, v => .ok (onInt (· + n) v)
  | mul n, v => .ok (onInt (· * n) v)
  | len, v => .ok (length v)
  | rev, v => .ok (reverse v)
  | display, v => .ok (.text v.display)
  | const value, _ => .ok value
  | present, v => .ok (.present v)
  | left, v => .ok (.left v)
  | right, v => .ok (.right v)
  | cond p f g, v =>
    match p.eval v with
    | .ok true => f.eval v
    | .ok false => g.eval v
    | .error e => .error e
  | seq f g, v =>
    match f.eval v with
    | .ok w => g.eval w
    | .error e => .error e
  | raise message, _ => .error (.raised message)

end Fn

end Streamkit
