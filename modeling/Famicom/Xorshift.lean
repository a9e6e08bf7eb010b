/-!
The generator behind power-on garbage: three xor-shifts on one 32-bit word, whose top byte is drawn.

The word 0 would stay 0 for ever, so a seed of 0 stands for the default seed instead.
-/

namespace Famicom

/-- State of the generator. -/
structure Xorshift where
  word : UInt32
  deriving DecidableEq, Inhabited

namespace Xorshift

/-- The seed a machine starts from. -/
def defaultSeed : UInt32 := 0x2A5F1C3D

/-- A generator from a seed; 0 stands for the default seed. -/
def ofSeed (seed : UInt32) : Xorshift := ⟨if seed = 0 then defaultSeed else seed⟩

/-- The next word. -/
def next (g : Xorshift) : UInt32 × Xorshift :=
  let x := g.word
  let x := x ^^^ (x <<< 13)
  let x := x ^^^ (x >>> 17)
  let x := x ^^^ (x <<< 5)
  (x, ⟨x⟩)

/-- The next byte: the high byte of the next word. -/
def byte (g : Xorshift) : UInt8 × Xorshift :=
  let (x, g) := g.next
  ((x >>> 24).toUInt8, g)

/-- The next `count` bytes in order. -/
def bytes (g : Xorshift) : Nat → List UInt8 × Xorshift
  | 0 => ([], g)
  | count + 1 =>
    let (b, g) := g.byte
    let (rest, g) := bytes g count
    (b :: rest, g)

end Xorshift

end Famicom
