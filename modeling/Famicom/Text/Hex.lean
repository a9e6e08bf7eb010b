/-!
Hexadecimal text as the machine's messages write it: upper-case digits, a fixed number of them for a
byte and for an address, high digit first.
-/

namespace Famicom.Hex

/-- The upper-case digit of a value below sixteen. -/
def digit (n : Nat) : Char :=
  if n < 10 then Char.ofNat (48 + n) else Char.ofNat (55 + n)

/-- The low `width` hexadecimal digits of a number, high digit first. -/
def digits : Nat → Nat → List Char
  | 0, _ => []
  | width + 1, n => digits width (n / 16) ++ [digit (n % 16)]

/-- A number in exactly `width` digits. -/
def fixed (width n : Nat) : String := String.ofList (digits width n)

/-- A byte, as in the `4C` of `$4C`. -/
def byte (b : UInt8) : String := fixed 2 b.toNat

/-- An address, as in the `80FF` of `$80FF`. -/
def word (w : UInt16) : String := fixed 4 w.toNat

end Famicom.Hex
