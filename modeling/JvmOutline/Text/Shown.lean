import JvmOutline.Text.Quoted

/-!
# Shown values — kinds, records and lists as text

A value is shown inside the name of its kind, as in `Int(1)`.  A record is shown with the names of
its fields between braces, a list between brackets; in both, commas separate.
-/

namespace JvmOutline

/-- A value inside the name of its kind. -/
def tagged (kind value : String) : String := kind ++ "(" ++ value ++ ")"

/-- A record: its name, and its fields with their values. -/
def recordText (name : String) (fields : List (String × String)) : String :=
  name ++ " \x7b " ++ ", ".intercalate (fields.map fun (field, value) => field ++ ": " ++ value) ++
    " \x7d"

/-- A list between brackets. -/
def listText (items : List String) : String := "[" ++ ", ".intercalate items ++ "]"

end JvmOutline
