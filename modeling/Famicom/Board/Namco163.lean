import Famicom.Board.Signal

/-!
The Namco 129/163: 1KB pattern banks, nametable windows that may show pattern ROM, 8KB program banks. Its
counter is latched but never clocked.
-/

namespace Famicom

/-- The counter of the Namco 163. -/
structure Namco163 where
  counter : UInt16 := 0
  enabled : Bool := false
  deriving DecidableEq, Repr, Inhabited

namespace Namco163

/-- Where the board can be written. -/
def writeRanges : List AddressRange := [(0x5000, 0x5FFF), (0x8000, 0xFFFF)]

/-- One write: every 2KB of addresses is a register. -/
def write (s : Namco163) (address : UInt16) (value : UInt8) : Namco163 × List Signal :=
  let register := address >>> 11
  if 0x10 ≤ register && register ≤ 0x17 then (s, [.chr 1 ((register &&& 7) <<< 10) (bank value)])
  else if 0x18 ≤ register && register ≤ 0x1B then
    (s, [.nametable (register &&& 3).toNat value])
  else match register.toNat with
    | 0x0A => ({ s with counter := (s.counter &&& 0xFF00) ||| value.toUInt16 }, [])
    | 0x0B =>
      (⟨((value &&& 0x7F).toUInt16 <<< 8) ||| (s.counter &&& 0x00FF), value &&& 0x80 != 0⟩, [])
    | 0x1C => (s, [.prg 8 0x8000 (bank value)])
    | 0x1D => (s, [.prg 8 0xA000 (bank value)])
    | 0x1E => (s, [.prg 8 0xC000 (bank value)])
    | _ => (s, [])

/-- What a snapshot keeps. -/
def save (s : Namco163) : List UInt8 :=
  [s.counter.toUInt8, (s.counter >>> 8).toUInt8, if s.enabled then 1 else 0]

/-- Takes a snapshot's bytes over. -/
def load (bytes : Nat → UInt8) : Namco163 :=
  ⟨((bytes 1).toUInt16 <<< 8) ||| (bytes 0).toUInt16, bytes 2 != 0⟩

end Namco163

end Famicom
