import Streamkit.Json.Codec
import Streamkit.Json.Reader
import Streamkit.Json.Writer
import Streamkit.Value

/-!
# Shapes of data

A shape is a type built from base types by `Maybe`, `Either` and lists. Given a codec for each base
type, `Shape.codec` is the codec of a shape. `Scalar` names the base types of values, and
`Scalar.toValue` and `Shape.toValue` turn data of a shape into a value. `ofValue` writes any value
as JSON, whatever its shape; `ofValue_toValue` says that this is how its codec writes it.
-/

namespace Streamkit.Json

/-- A type built from base types. -/
inductive Shape (B : Type) where
  | base (b : B)
  | maybe (s : Shape B)
  | either (l r : Shape B)
  | list (s : Shape B)

namespace Shape

variable {B : Type} {β : B → Type}

/-- The data of a shape, from the data of the base types. -/
def Data (β : B → Type) : Shape B → Type
  | base b => β b
  | maybe s => Maybe (s.Data β)
  | either l r => Either (l.Data β) (r.Data β)
  | list s => List (s.Data β)

/-- The codec of a shape, from the codecs of the base types. -/
def codec (codecs : (b : B) → Codec (β b)) : (s : Shape B) → Codec (s.Data β)
  | base b => codecs b
  | maybe s => .maybe (s.codec codecs)
  | either l r => .either (l.codec codecs) (r.codec codecs)
  | list s => .list (s.codec codecs)

/-- Data of a shape as a value. -/
def toValue (values : (b : B) → β b → Value) : (s : Shape B) → s.Data β → Value
  | base b, a => values b a
  | maybe _, .absent => .absent
  | maybe s, .present a => .present (s.toValue values a)
  | either l _, .left a => .left (l.toValue values a)
  | either _ r, .right b => .right (r.toValue values b)
  | list s, as => .list (List.map (s.toValue values) as)

end Shape

/-- The base types of values. -/
inductive Scalar where
  | unit
  | bool
  | int64
  | uint32
  | text

namespace Scalar

/-- The data of a base type. -/
def Data : Scalar → Type
  | unit => Unit
  | bool => Bool
  | int64 => Int64
  | uint32 => UInt32
  | text => String

/-- The codec of a base type. -/
def codec : (b : Scalar) → Codec b.Data
  | unit => .unit
  | bool => .bool
  | int64 => .int64
  | uint32 => .uint32
  | text => .text

/-- Data of a base type as a value. -/
def toValue : (b : Scalar) → b.Data → Value
  | unit, _ => .unit
  | bool, b => .bool b
  | int64, i => .int i
  | uint32, n => .ofNat n.toNat
  | text, s => .text s

end Scalar

mutual

/-- A value as JSON. -/
def ofValue : Value → Tree
  | .unit => .null
  | .bool b => .bool b
  | .int i => .int i.toInt
  | .text s => .text s
  | .list vs => .array (ofValues vs)
  | .absent => .null
  | .present v => ofValue v
  | .left v => .object [(Side.left.name, ofValue v)]
  | .right v => .object [(Side.right.name, ofValue v)]

/-- Values as JSON. -/
def ofValues : List Value → List Tree
  | [] => []
  | v :: vs => ofValue v :: ofValues vs

end

theorem ofValues_map {α : Type} {f : α → Value} {g : α → Tree} (h : ∀ a, ofValue (f a) = g a)
    (as : List α) : ofValues (as.map f) = as.map g := by
  induction as with
  | nil => rfl
  | cons a as ih => rw [List.map_cons, List.map_cons, ofValues, h, ih]

/-- Data is written as a value in the way its codec writes it, if the base types are. -/
theorem ofValue_toValue {B : Type} {β : B → Type} {codecs : (b : B) → Codec (β b)}
    {values : (b : B) → β b → Value} (hbase : ∀ b a, ofValue (values b a) = (codecs b).encode a)
    (s : Shape B) (v : s.Data β) :
    ofValue (s.toValue values v) = (s.codec codecs).encode v := by
  induction s with
  | base b => exact hbase b v
  | maybe s ih =>
    cases v with
    | absent => rfl
    | present a => exact ih a
  | either l r ihl ihr =>
    cases v with
    | left a => exact congrArg (fun j => Tree.object [(Side.left.name, j)]) (ihl a)
    | right b => exact congrArg (fun j => Tree.object [(Side.right.name, j)]) (ihr b)
  | list s ih => exact congrArg Tree.array (ofValues_map ih v)

theorem Scalar.ofValue_toValue (b : Scalar) (a : b.Data) :
    ofValue (b.toValue a) = b.codec.encode a := by
  cases b with
  | unit | bool | int64 | text => rfl
  | uint32 =>
    have hsmall : (UInt32.toNat a) < 2 ^ 63 := Nat.lt_trans (UInt32.toNat_lt a) (by decide)
    exact congrArg Tree.int (Int64.toInt_ofNat_of_lt hsmall)

/-! ## Texts of data -/

/-- Reads a text with a codec: the data, and the text it is written as. -/
def readWith {α : Type} (c : Codec α) (text : String) : Option (α × String) := do
  let a ← c.decode (← read? text)
  return (a, (c.encode a).write)

/-- Reads a text as data of a shape. -/
def readAs (s : Shape Scalar) (text : String) : Option (Value × String) :=
  (readWith (s.codec Scalar.codec) text).map fun (a, written) =>
    (s.toValue Scalar.toValue a, written)

end Streamkit.Json
