/-!
# Records in text

The written form of a record: its name and its fields, `Name { a: x, b: y }`. A record that does
not show all of its fields is written `Name { a: x, .. }`.
-/

namespace Streamkit.Text

/-- The fields of a record as `name: value`, separated by commas. -/
def fieldList (fields : List (String × String)) : String :=
  ", ".intercalate (fields.map fun (name, value) => name ++ ": " ++ value)

/-- A record with all of its fields. -/
def record (name : String) (fields : List (String × String)) : String :=
  name ++ " \x7b " ++ fieldList fields ++ " \x7d"

/-- A record with further fields that are not shown. -/
def openRecord (name : String) (fields : List (String × String)) : String :=
  name ++ " \x7b " ++ fieldList fields ++ ", .. \x7d"

/-- A truth value in text. -/
def truth (b : Bool) : String :=
  if b then "true" else "false"

end Streamkit.Text
