/-!
# Records as texts

A record is shown with its name and its fields, each as a name and a value:
`Name { field: value, .. }`. Two dots stand for what is left out.
-/

namespace PenTouch.Text

/-- The fields of a record, separated by commas. -/
def fields (fs : List (String × String)) : String :=
  ", ".intercalate (fs.map fun (name, value) => name ++ ": " ++ value)

def record (name : String) (fs : List (String × String)) : String :=
  name ++ " \x7b " ++ fields fs ++ " \x7d"

/-- A record with some of its fields. -/
def partialRecord (name : String) (fs : List (String × String)) : String :=
  name ++ " \x7b " ++ fields fs ++ ", .. \x7d"

end PenTouch.Text
