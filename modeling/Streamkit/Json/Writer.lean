import Streamkit.Json.Tree
import Streamkit.Text.Quoted

/-!
# Writing JSON

`Tree.write` is the text of a JSON value without blanks. A text is written with short escapes where
there are any, with the code of other control characters, and with all other characters as they
are. A value that is not exact is written as null.
-/

namespace Streamkit.Json

/-- One character of a text. -/
def escapeChar (c : Char) : String :=
  if c = '"' then "\\\""
  else if c = '\\' then "\\\\"
  else if c = '\x08' then "\\b"
  else if c = '\t' then "\\t"
  else if c = '\n' then "\\n"
  else if c = '\x0c' then "\\f"
  else if c = '\r' then "\\r"
  else if c.toNat < 0x10 then "\\u000" ++ Text.hex c.toNat
  else if c.toNat < 0x20 then "\\u00" ++ Text.hex c.toNat
  else c.toString

/-- A text between double quotes. -/
def writeText (s : String) : String :=
  s.toList.foldl (fun acc c => acc ++ escapeChar c) "\"" ++ "\""

namespace Tree

mutual

/-- The text of a value. -/
def write : Tree → String
  | null => "null"
  | bool b => if b then "true" else "false"
  | int i => i.repr
  | text s => writeText s
  | array items => "[" ++ ",".intercalate (writeItems items) ++ "]"
  | object fields => "\x7b" ++ ",".intercalate (writeFields fields) ++ "\x7d"
  | inexact => "null"

/-- The texts of the items of an array. -/
def writeItems : List Tree → List String
  | [] => []
  | v :: vs => write v :: writeItems vs

/-- The texts of the fields of an object. -/
def writeFields : List (String × Tree) → List String
  | [] => []
  | (name, v) :: fields => (writeText name ++ ":" ++ write v) :: writeFields fields

end

end Tree

end Streamkit.Json
