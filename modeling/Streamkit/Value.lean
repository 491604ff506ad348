import Streamkit.Either

/-!
# Values

`Value` is the type of dynamically typed values: units, truth values, 64-bit integers, texts, lists
and, to any depth, values that may be missing and values on one of two sides. `toMaybe` and
`toEither` read any value as one of the latter two, and `ofMaybe` and `ofEither` go back:
`toMaybe_ofMaybe`, `toEither_ofEither`.
-/

namespace Streamkit

/-- A dynamically typed value. -/
inductive Value where
  | unit
  | bool (b : Bool)
  | int (i : Int64)
  | text (s : String)
  | list (items : List Value)
  | absent
  | present (payload : Value)
  | left (payload : Value)
  | right (payload : Value)
  deriving Inhabited

namespace Value

/-- A `Maybe` as a value. -/
def ofMaybe : Maybe Value → Value
  | .absent => absent
  | .present v => present v

/-- An `Either` as a value. -/
def ofEither : Either Value Value → Value
  | .left v => left v
  | .right v => right v

/-- A value read as a `Maybe`; a value of another kind counts as its own payload. -/
def toMaybe : Value → Maybe Value
  | absent => .absent
  | present v => .present v
  | v => .present v

/-- A value read as an `Either`; a value of another kind counts as a right payload. -/
def toEither : Value → Either Value Value
  | left v => .left v
  | right v => .right v
  | v => .right v

/-- A number of items as a value. -/
def ofNat (n : Nat) : Value := int (Int64.ofNat n)

@[simp] theorem toMaybe_ofMaybe (v : Maybe Value) : (ofMaybe v).toMaybe = v := by cases v <;> rfl

@[simp] theorem toEither_ofEither (v : Either Value Value) : (ofEither v).toEither = v := by
  cases v <;> rfl

end Value

end Streamkit
