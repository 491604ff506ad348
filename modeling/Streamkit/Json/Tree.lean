/-!
# JSON values

A JSON value as a tree. The numbers that the trees hold are integers and the texts are made of
characters; a well-formed value that needs more (a fraction, an exponent, a negative zero, half of
a surrogate pair) is `inexact`.
-/

namespace Streamkit.Json

/-- A JSON value. -/
inductive Tree where
  | null
  | bool (b : Bool)
  | int (i : Int)
  | text (s : String)
  | array (items : List Tree)
  /-- The fields in order, repeated ones included. -/
  | object (fields : List (String × Tree))
  /-- A well-formed number, text or object that cannot be held exactly. -/
  | inexact

end Streamkit.Json
