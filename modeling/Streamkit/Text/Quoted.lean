import Streamkit.Text.Unprintable

/-!
# Quoted text

`quote` writes a text between double quotes so that every character can be told apart: quotes,
backslashes and the common blanks have short escapes, and a character that is never shown raw is
written as its code point.
-/

namespace Streamkit.Text

/-- A number in hexadecimal, with digits in lower case. -/
def hex (n : Nat) : String :=
  String.ofList (Nat.toDigits 16 n)

/-- One character of a quoted text. -/
def quoteChar (c : Char) : String :=
  if c = '\x00' then "\\0"
  else if c = '\t' then "\\t"
  else if c = '\r' then "\\r"
  else if c = '\n' then "\\n"
  else if c = '"' then "\\\""
  else if c = '\\' then "\\\\"
  else if ' ' ≤ c && c ≤ '~' then c.toString
  else if isUnprintable c then "\\u\x7b" ++ hex c.toNat ++ "\x7d"
  else c.toString

/-- A text between double quotes, with escapes. -/
def quote (s : String) : String :=
  s.toList.foldl (fun acc c => acc ++ quoteChar c) "\"" ++ "\""

end Streamkit.Text
