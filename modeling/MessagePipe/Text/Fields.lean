/-!
# MessagePipe.Text.Fields

The one-line text of a value with named fields.  Names and values are joined
by `: `, fields by `, `, and the listing stands between braces with a blank on
the inside.  A listing that does not show every field of the value ends with
two dots in the place of the last field.
-/

namespace MessagePipe.Text

/-- One named field. -/
def field (name value : String) : String := name ++ ": " ++ value

/-- The listing of all fields of a value. -/
def fields (type : String) (items : List String) : String :=
  type ++ " \x7b " ++ ", ".intercalate items ++ " \x7d"

/-- The listing of some fields of a value that has more. -/
def someFields (type : String) (items : List String) : String :=
  fields type (items ++ [".."])

end MessagePipe.Text
