import Streamkit.Value

/-!
# Values in text

`Value.display` words a value, with texts as they are; `Value.debug` writes it in constructor form,
with texts quoted.
-/

namespace Streamkit.Value

mutual

/-- The wording of a value. -/
def display : Value → String
  | unit => "()"
  | bool b => Text.truth b
  | int i => i.toInt.repr
  | text s => s
  | list vs => "[" ++ ",".intercalate (displayAll vs) ++ "]"
  | absent => "none()"
  | present v => "some(" ++ display v ++ ")"
  | left v => "Either.Left(" ++ display v ++ ")"
  | right v => "Either.Right(" ++ display v ++ ")"

/-- The wording of each value of a list. -/
def displayAll : List Value → List String
  | [] => []
  | v :: vs => display v :: displayAll vs

end

mutual

/-- A value in constructor form. -/
def debug : Value → String
  | unit => "()"
  | bool b => Text.truth b
  | int i => i.toInt.repr
  | text s => Text.quote s
  | list vs => "[" ++ ", ".intercalate (debugAll vs) ++ "]"
  | absent => "Absent"
  | present v => "Present(" ++ debug v ++ ")"
  | left v => "Left(" ++ debug v ++ ")"
  | right v => "Right(" ++ debug v ++ ")"

/-- The constructor form of each value of a list. -/
def debugAll : List Value → List String
  | [] => []
  | v :: vs => debug v :: debugAll vs

end

/-- A `Maybe` among values is worded as one. -/
theorem display_ofMaybe (v : Maybe Value) : (ofMaybe v).display = v.displayWith display := by
  cases v <;> simp [ofMaybe, display, Maybe.displayWith]

/-- An `Either` among values is worded as one. -/
theorem display_ofEither (v : Either Value Value) :
    (ofEither v).display = v.displayWith display display := by
  cases v <;> simp [ofEither, display, Either.displayWith]

/-- A `Maybe` among values has its constructor form. -/
theorem debug_ofMaybe (v : Maybe Value) : (ofMaybe v).debug = v.debugWith debug := by
  cases v <;> simp [ofMaybe, debug, Maybe.debugWith]

/-- An `Either` among values has its constructor form. -/
theorem debug_ofEither (v : Either Value Value) :
    (ofEither v).debug = v.debugWith debug debug := by
  cases v <;> simp [ofEither, debug, Either.debugWith]

end Streamkit.Value
