/-!
JSON values as they are read and written here. Numbers keep their spelling, since only whole numbers are
ever used and the others only have to be well-formed. A string may spell half of a surrogate pair; it then
is well-formed, but has no text.
-/

namespace Famicom

/-- A JSON value. -/
inductive Json where
  | null
  | bool (value : Bool)
  | number (spelling : List Char)
  | string (text : Option String)
  | array (items : List Json)
  | object (members : List (Option String × Json))
  deriving Inhabited

namespace Json

/-- The value of a decimal digit. -/
def digitValue (c : Char) : Nat := c.toNat - '0'.toNat

/-- Whether a character is a decimal digit. -/
def isDigit (c : Char) : Bool := '0' ≤ c && c ≤ '9'

/-- The number that decimal digits stand for. -/
def digitsValue (digits : List Char) : Nat := digits.foldl (fun n c => n * 10 + digitValue c) 0

/-- A number spelled with digits only, if it is at most `limit`. -/
def natAtMost? (limit : Nat) : Json → Option Nat
  | .number spelling =>
    let n := digitsValue spelling
    if spelling.all isDigit && n ≤ limit then some n else none
  | _ => none

/-- A truth value. -/
def bool? : Json → Option Bool
  | .bool value => some value
  | _ => none

/-- The number with the shortest spelling. -/
def ofNat (n : Nat) : Json := .number (Nat.toDigits 10 n)

end Json

end Famicom
