/-!
Whole numbers as arguments: digits, perhaps behind a plus sign, up to a limit. Characters are read from
the left, and the first fault is the one that is told.
-/

namespace Famicom.CommandLine

/-- What is wrong with a number. -/
inductive NumberError where
  | empty | invalidDigit | tooLarge
  deriving DecidableEq, Repr, Inhabited

/-- The wording of a fault. -/
def NumberError.message : NumberError → String
  | .empty => "cannot parse integer from empty string"
  | .invalidDigit => "invalid digit found in string"
  | .tooLarge => "number too large to fit in target type"

/-- The value of a digit of a base up to 36. -/
def digitOf? (base : Nat) (c : Char) : Option Nat :=
  let value? :=
    if '0' ≤ c && c ≤ '9' then some (c.toNat - '0'.toNat)
    else if 'a' ≤ c && c ≤ 'z' then some (c.toNat - 'a'.toNat + 10)
    else if 'A' ≤ c && c ≤ 'Z' then some (c.toNat - 'A'.toNat + 10)
    else none
  value?.filter (· < base)

/-- Appends digits to a number. -/
def appendDigits (base limit : Nat) (value : Nat) : List Char → Except NumberError Nat
  | [] => .ok value
  | c :: rest =>
    match digitOf? base c with
    | none => .error .invalidDigit
    | some d =>
      let value := value * base + d
      if value > limit then .error .tooLarge else appendDigits base limit value rest

/-- The number that a text spells in a base. -/
def number (base limit : Nat) (text : List Char) : Except NumberError Nat :=
  match text with
  | [] => .error .empty
  | ['+'] => .error .invalidDigit
  | '+' :: digits => appendDigits base limit 0 digits
  | digits => appendDigits base limit 0 digits

/-- A byte: hexadecimal behind `0x`, else decimal. -/
def byte? (text : String) : Option UInt8 :=
  let parsed := match text.toList with
    | '0' :: 'x' :: digits => number 16 0xFF digits
    | '0' :: 'X' :: digits => number 16 0xFF digits
    | digits => number 10 0xFF digits
  parsed.toOption.map UInt8.ofNat

end Famicom.CommandLine
