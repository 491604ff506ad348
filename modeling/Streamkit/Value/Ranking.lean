import Streamkit.Closure

/-!
# Rankings of values

Comparisons of values as data: the order of values, orders by a key, and comparisons that are no
orders at all. Only `failingAt` gives up.
-/

namespace Streamkit

/-- A comparison of values. -/
inductive Ranking where
  | natural
  | descending
  /-- By the first item of a list, the unit if it is empty; other values by themselves. -/
  | byFirst
  /-- By the number of characters or items. -/
  | byLength
  /-- By the remainder on division, between 0 and the divisor. -/
  | byRemainder (divisor : Int64)
  | constant (verdict : Ordering)
  /-- The order of values; gives up on the given value. -/
  | failingAt (value : Value)

namespace Ranking

/-- The first item of a list, the unit if it is empty; other values as they are. -/
def firstItem : Value → Value
  | .list (v :: _) => v
  | .list [] => .unit
  | v => v

/-- The remainder of an integer; other values as they are. -/
def remainder (divisor : Int64) : Value → Value
  | .int i => .int (Int64.ofInt (i.toInt % divisor.toInt))
  | v => v

/-- The verdict on two values. -/
def eval : Ranking → Value → Value → Except Fault Ordering
  | natural, v, w => .ok (v.compare w)
  | descending, v, w => .ok (w.compare v)
  | byFirst, v, w => .ok ((firstItem v).compare (firstItem w))
  | byLength, v, w => .ok ((Fn.length v).compare (Fn.length w))
  | byRemainder divisor, v, w => .ok ((remainder divisor v).compare (remainder divisor w))
  | constant verdict, _, _ => .ok verdict
  | failingAt value, v, w =>
    if v = value ∨ w = value then .error (.raised "order panicked") else .ok (v.compare w)

end Ranking

end Streamkit
