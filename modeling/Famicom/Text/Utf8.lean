/-!
Reading bytes as text when they may not be UTF-8. Well-formed characters are read as they are; every
longest beginning of a character that breaks off, and every byte that cannot begin one, is read as the
replacement character.

    E2 82 AC   ▶ €          E2 82 41   ▶ � A          C0   ▶ �
-/

namespace Famicom.Utf8

/-- Stands for bytes that are not text. -/
def replacement : Char := Char.ofNat 0xFFFD

/-- Whether a byte is one of the plain continuation bytes. -/
def isContinuation (b : UInt8) : Bool := 0x80 ≤ b && b ≤ 0xBF

/-- What may follow a lead byte: the bounds of the second byte and the number of bytes after it. Lead bytes
of overlong forms, surrogates and values past the last character are none, or narrow the bounds. -/
def continuation (lead : UInt8) : Option (UInt8 × UInt8 × Nat) :=
  if 0xC2 ≤ lead && lead ≤ 0xDF then some (0x80, 0xBF, 0)
  else if lead = 0xE0 then some (0xA0, 0xBF, 1)
  else if lead = 0xED then some (0x80, 0x9F, 1)
  else if 0xE1 ≤ lead && lead ≤ 0xEF then some (0x80, 0xBF, 1)
  else if lead = 0xF0 then some (0x90, 0xBF, 2)
  else if lead = 0xF4 then some (0x80, 0x8F, 2)
  else if 0xF1 ≤ lead && lead ≤ 0xF3 then some (0x80, 0xBF, 2)
  else none

/-- The payload bits of a lead byte with `count` bytes after it. -/
def leadBits (lead : UInt8) (count : Nat) : Nat := lead.toNat % (64 >>> count)

/-- The value of plain continuation bytes behind a value. -/
def extend (value : Nat) (bytes : List UInt8) : Nat :=
  bytes.foldl (fun v b => v * 64 + b.toNat % 64) value

/-- The first character of a text that begins with `lead`, and how many of the bytes after it belong to it. -/
def first (lead : UInt8) (rest : List UInt8) : Char × Nat :=
  if lead < 0x80 then (Char.ofNat lead.toNat, 0)
  else match continuation lead, rest with
    | some (lo, hi, more), second :: rest =>
      if lo ≤ second && second ≤ hi then
        let tail := (rest.take more).takeWhile isContinuation
        if tail.length = more then
          (Char.ofNat (extend (leadBits lead (more + 1)) (second :: tail)), more + 1)
        else (replacement, tail.length + 1)
      else (replacement, 0)
    | _, _ => (replacement, 0)

/-- Bytes as text. -/
def decode : List UInt8 → List Char
  | [] => []
  | lead :: rest => (first lead rest).1 :: decode (rest.drop (first lead rest).2)
termination_by bytes => bytes.length
decreasing_by simp only [List.length_cons, List.length_drop]; omega

/-- Bytes as a string. -/
def toString (bytes : List UInt8) : String := String.ofList (decode bytes)

end Famicom.Utf8
