/-!
Base64: three bytes as four characters of six bits each; a last group of one or two bytes is padded with
equals signs.
-/

namespace Famicom.Base64

/-- The character of a six-bit number. -/
def digit (n : Nat) : Char :=
  if n < 26 then Char.ofNat ('A'.toNat + n)
  else if n < 52 then Char.ofNat ('a'.toNat + (n - 26))
  else if n < 62 then Char.ofNat ('0'.toNat + (n - 52))
  else if n = 62 then '+'
  else '/'

/-- The n-th six-bit digit from the top of a 24-bit number. -/
def digitAt (n : Nat) (index : Nat) : Char := digit (n >>> (6 * (3 - index)) % 64)

/-- Three bytes as one number. -/
def group (a b c : UInt8) : Nat := a.toNat * 0x10000 + b.toNat * 0x100 + c.toNat

/-- The characters of bytes. -/
def encode : List UInt8 → List Char
  | a :: b :: c :: rest =>
    let n := group a b c
    digitAt n 0 :: digitAt n 1 :: digitAt n 2 :: digitAt n 3 :: encode rest
  | [a, b] =>
    let n := group a b 0
    [digitAt n 0, digitAt n 1, digitAt n 2, '=']
  | [a] =>
    let n := group a 0 0
    [digitAt n 0, digitAt n 1, '=', '=']
  | [] => []

end Famicom.Base64
