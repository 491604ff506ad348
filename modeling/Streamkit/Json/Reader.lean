import Streamkit.Json.Token
import Streamkit.Json.Tree

/-!
# Reading JSON

`read?` gives the one value of a text. The reader goes through the tokens with a stack of open
arrays and objects; at every token it expects a value, a key, a colon, or what may follow a value.
A comma is always followed by another item or field.
-/

namespace Streamkit.Json

/-- A field of an object; its name is missing if its escapes make no whole characters. -/
abbrev Field := Option String × Tree

/-- An array or an object that is still open. What it holds so far is kept in reverse. -/
inductive Frame where
  | array (items : List Tree)
  /-- An object that waits for the value of a field. -/
  | object (fields : List Field) (name : Option String)

/-- What the reader expects next. -/
inductive Expect where
  /-- A value; the end of the innermost array, too, if it was just opened. -/
  | value (opened : Bool)
  /-- The name of a field of the innermost object; its end, too, if it was just opened. -/
  | name (fields : List Field) (opened : Bool)
  /-- The colon after the name of a field. -/
  | colon (fields : List Field) (name : Option String)
  /-- What may follow a value: more of the innermost array or object, or nothing. -/
  | more (v : Tree)

/-- What the reader expects, and the arrays and objects that are open, the innermost first. -/
structure Reader where
  /-- What is expected next. -/
  expect : Expect
  /-- The open arrays and objects. -/
  frames : List Frame

/-- A complete object; one with a name that is missing cannot be held exactly. -/
def closeFields (fields : List Field) : Tree :=
  match fields.reverse.mapM fun (name, v) => name.map (·, v) with
  | some fields => .object fields
  | none => .inexact

/-- The value that a single token spells. -/
def Token.scalar? : Token → Option Tree
  | null => some .null
  | bool b => some (.bool b)
  | number i => some ((i.map .int).getD .inexact)
  | text s => some ((s.map .text).getD .inexact)
  | _ => none

namespace Reader

/-- At the start of a text. -/
def start : Reader := ⟨.value false, []⟩

/-- Goes past a token where a value is expected. -/
def atValue (opened : Bool) (frames : List Frame) : Token → Option Reader
  | .openArray => some ⟨.value true, .array [] :: frames⟩
  | .openObject => some ⟨.name [] true, frames⟩
  | .closeArray =>
    match opened, frames with
    | true, .array items :: frames => some ⟨.more (.array items.reverse), frames⟩
    | _, _ => none
  | t => t.scalar?.map fun v => ⟨.more v, frames⟩

/-- Goes past a token where a name is expected. -/
def atName (fields : List Field) (opened : Bool) (frames : List Frame) : Token → Option Reader
  | .text name => some ⟨.colon fields name, frames⟩
  | .closeObject => if opened then some ⟨.more (closeFields fields), frames⟩ else none
  | _ => none

/-- Goes past a token after a value. -/
def afterValue (v : Tree) : List Frame → Token → Option Reader
  | .array items :: frames, .comma => some ⟨.value false, .array (v :: items) :: frames⟩
  | .array items :: frames, .closeArray => some ⟨.more (.array (v :: items).reverse), frames⟩
  | .object fields name :: frames, .comma => some ⟨.name ((name, v) :: fields) false, frames⟩
  | .object fields name :: frames, .closeObject =>
    some ⟨.more (closeFields ((name, v) :: fields)), frames⟩
  | _, _ => none

/-- Goes past a token. -/
def step (r : Reader) (t : Token) : Option Reader :=
  match r.expect with
  | .value opened => atValue opened r.frames t
  | .name fields opened => atName fields opened r.frames t
  | .colon fields name =>
    match t with
    | .colon => some ⟨.value false, .object fields name :: r.frames⟩
    | _ => none
  | .more v => afterValue v r.frames t

/-- The value at the end of a text. -/
def result? : Reader → Option Tree
  | ⟨.more v, []⟩ => some v
  | _ => none

end Reader

/-- The value of a text that holds one value and nothing else. -/
def read? (text : String) : Option Tree := do
  ((← (← tokens text.toList).foldlM Reader.step .start)).result?

end Streamkit.Json
