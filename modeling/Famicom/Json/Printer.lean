import Famicom.Json

/-!
Writing an object of plain values, one member to a line, indented by two blanks.
-/

namespace Famicom.Json

/-- The text of a value that holds no others. Texts are written as they are, so they must not need escapes. -/
def printScalar : Json → String
  | .null => "null"
  | .bool value => if value then "true" else "false"
  | .number spelling => String.ofList spelling
  | .string text => "\"" ++ text.getD "" ++ "\""
  | .array _ => "[]"
  | .object _ => "\x7b\x7d"

/-- A member on a line of its own. -/
def printMember (member : String × Json) : String :=
  "  \"" ++ member.1 ++ "\": " ++ printScalar member.2

/-- An object of plain values. -/
def printObject (members : List (String × Json)) : String :=
  "\x7b\n" ++ String.intercalate ",\n" (members.map printMember) ++ "\n\x7d"

end Famicom.Json
