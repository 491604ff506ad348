import Streamkit.Either
import Streamkit.Json.Tree

/-!
# Codecs

A codec writes the values of a type as JSON and reads them back. A value that may be missing is
written as its payload or as null, so null is read as nothing whatever the payload could be; a value
on one of two sides is written as an object with one field named for the side.
-/

namespace Streamkit.Json

/-- How the values of a type are written as JSON and read. -/
structure Codec (α : Type) where
  encode : α → Tree
  decode : Tree → Option α
  /-- The value of a field that an object does not have. -/
  missing : Option α

namespace Codec

variable {α β : Type}

/-! ## Scalars -/

/-- The unit, written as null. -/
def unit : Codec Unit where
  encode _ := .null
  decode
    | .null => some ()
    | _ => none
  missing := none

/-- Truth values. -/
def bool : Codec Bool where
  encode := .bool
  decode
    | .bool b => some b
    | _ => none
  missing := none

/-- Texts. -/
def text : Codec String where
  encode := .text
  decode
    | .text s => some s
    | _ => none
  missing := none

/-- Signed 64-bit integers. -/
def int64 : Codec Int64 where
  encode i := .int i.toInt
  decode
    | .int i =>
      if Int64.minValue.toInt ≤ i ∧ i ≤ Int64.maxValue.toInt then some (Int64.ofInt i) else none
    | _ => none
  missing := none

/-- Unsigned 32-bit integers. -/
def uint32 : Codec UInt32 where
  encode n := .int n.toNat
  decode
    | .int i => if 0 ≤ i ∧ i < UInt32.size then some (UInt32.ofNat i.toNat) else none
    | _ => none
  missing := none

/-! ## Structured values -/

/-- A payload, or null for nothing. A field that is not there is read as nothing. -/
def maybe (c : Codec α) : Codec (Maybe α) where
  encode
    | .absent => .null
    | .present a => c.encode a
  decode
    | .null => some .absent
    | j => (c.decode j).map .present
  missing := some .absent

/-- An object with one field, which names the side. -/
def either (c : Codec α) (d : Codec β) : Codec (Either α β) where
  encode
    | .left a => .object [(Side.left.name, c.encode a)]
    | .right b => .object [(Side.right.name, d.encode b)]
  decode
    | .object [(name, j)] =>
      if name = Side.left.name then (c.decode j).map .left
      else if name = Side.right.name then (d.decode j).map .right
      else none
    | _ => none
  missing := none

/-- An array. -/
def list (c : Codec α) : Codec (List α) where
  encode vs := .array (vs.map c.encode)
  decode
    | .array js => js.mapM c.decode
    | _ => none
  missing := none

/-- The field with the given name: at most one, and the codec decides if there is none. -/
def field (name : String) (c : Codec α) (fields : List (String × Tree)) : Option α :=
  match fields.filter (·.1 = name) with
  | [] => c.missing
  | [(_, j)] => c.decode j
  | _ => none

/-- An object with two fields; further fields are ignored. An array of the two is read as well. -/
def fields (name : String) (c : Codec α) (name' : String) (d : Codec β) : Codec (α × β) where
  encode | (a, b) => .object [(name, c.encode a), (name', d.encode b)]
  decode
    | .object fields => do return (← field name c fields, ← field name' d fields)
    | .array [j, j'] => do return (← c.decode j, ← d.decode j')
    | _ => none
  missing := none

end Codec

end Streamkit.Json
