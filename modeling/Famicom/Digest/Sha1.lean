/-!
SHA-1. The message is padded to blocks of 64 bytes; each block is spread to eighty words that are stirred, one
per round, into five words of state.
-/

namespace Famicom.Sha1

/-- The five words of state. -/
structure State where
  a : UInt32 := 0x67452301
  b : UInt32 := 0xEFCDAB89
  c : UInt32 := 0x98BADCFE
  d : UInt32 := 0x10325476
  e : UInt32 := 0xC3D2E1F0
  deriving DecidableEq, Inhabited

/-- Rotates a word to the left. -/
def rotate (x : UInt32) (bits : UInt32) : UInt32 := (x <<< bits) ||| (x >>> (32 - bits))

/-- The bytes of a number, high byte first. -/
def bigEndian (count : Nat) (n : Nat) : List UInt8 :=
  (List.range count).map fun i => UInt8.ofNat (n >>> (8 * (count - 1 - i)))

/-- A message padded to whole blocks: a set bit, zeros, and its length in bits. -/
def pad (message : Array UInt8) : Array UInt8 :=
  let zeros := (55 + 64 - message.size % 64) % 64
  (message.push 0x80 ++ Array.replicate zeros 0) ++ (bigEndian 8 (message.size * 8)).toArray

/-- The big-endian word at an offset. -/
def wordAt (bytes : Array UInt8) (offset : Nat) : UInt32 :=
  (bytes.getD offset 0).toUInt32 <<< 24 ||| (bytes.getD (offset + 1) 0).toUInt32 <<< 16 |||
    (bytes.getD (offset + 2) 0).toUInt32 <<< 8 ||| (bytes.getD (offset + 3) 0).toUInt32

/-- The eighty words of the block at an offset. -/
def schedule (bytes : Array UInt8) (offset : Nat) : Array UInt32 :=
  let start := (Array.range 16).map fun i => wordAt bytes (offset + 4 * i)
  (List.range 64).foldl (fun w i =>
    w.push (rotate (w.getD (i + 13) 0 ^^^ w.getD (i + 8) 0 ^^^ w.getD (i + 2) 0 ^^^ w.getD i 0) 1)) start

/-- The mixing function and the constant of a round. -/
def mixing (round : Nat) (b c d : UInt32) : UInt32 × UInt32 :=
  if round < 20 then ((b &&& c) ||| (~~~ b &&& d), 0x5A827999)
  else if round < 40 then (b ^^^ c ^^^ d, 0x6ED9EBA1)
  else if round < 60 then ((b &&& c) ||| (b &&& d) ||| (c &&& d), 0x8F1BBCDC)
  else (b ^^^ c ^^^ d, 0xCA62C1D6)

/-- One round with one word. -/
def round (s : State) (number : Nat) (word : UInt32) : State :=
  let (f, k) := mixing number s.b s.c s.d
  { a := rotate s.a 5 + f + s.e + k + word, b := s.a, c := rotate s.b 30, d := s.c, e := s.d }

/-- Stirs one block into the state. -/
def compress (bytes : Array UInt8) (s : State) (block : Nat) : State :=
  let words := schedule bytes (64 * block)
  let t := (List.range 80).foldl (fun t i => round t i (words.getD i 0)) s
  { a := s.a + t.a, b := s.b + t.b, c := s.c + t.c, d := s.d + t.d, e := s.e + t.e }

/-- The twenty bytes of a state. -/
def State.bytes (s : State) : List UInt8 :=
  [s.a, s.b, s.c, s.d, s.e].flatMap fun w => bigEndian 4 w.toNat

/-- The digest of a message. -/
def digest (message : Array UInt8) : List UInt8 :=
  let bytes := pad message
  ((List.range (bytes.size / 64)).foldl (compress bytes) {}).bytes

end Famicom.Sha1
