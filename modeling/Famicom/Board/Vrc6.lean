import Famicom.Board.Vrc
import Famicom.Text.Hex

/-!
VRC6: a 16KB and an 8KB program bank, eight 1KB pattern banks, the common line counter, and three sound
channels that answer at addresses of their own.
-/

namespace Famicom

/-- Registers of the VRC6. -/
structure Vrc6 where
  line : VrcCounter := {}
  deriving DecidableEq, Repr, Inhabited

namespace Vrc6

/-- Where the board can be written. -/
def writeRanges : List AddressRange := [(0x8000, 0xF002)]

/-- One write; an address without a register is logged. -/
def write (s : Vrc6) (address : UInt16) (value : UInt8) : Vrc6 × List Signal :=
  let register := address &&& 0xF003
  if 0xD000 ≤ register && register ≤ 0xD003 then (s, [.chr 1 ((register &&& 3) <<< 10) (bank value)])
  else if 0xE000 ≤ register && register ≤ 0xE003 then
    (s, [.chr 1 (((register &&& 3) <<< 10) ||| 0x1000) (bank value)])
  else match register.toNat with
    | 0x8000 => (s, [.prg 16 0x8000 (bank value)])
    | 0x9003 => (s, [])
    | 0xB003 => (s, [.vrcWiring (value >>> 2)])
    | 0xC000 => (s, [.prg 8 0xC000 (bank value)])
    | 0xF000 => ({ s with line := { s.line with latch := value } }, [])
    | 0xF001 => ({ s with line := s.line.control value }, [])
    | 0xF002 => ({ s with line := s.line.acknowledge }, [])
    | _ => (s, [.log s!"invalid VRC6 write: ${Hex.byte value} to ${Hex.word address}"])

/-- The end of a line. -/
def hblank (s : Vrc6) : Vrc6 × List Signal :=
  let (line, signals) := s.line.tick
  (⟨line⟩, signals)

end Vrc6

end Famicom
