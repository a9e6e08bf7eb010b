import Famicom.Board.Signal
import Famicom.Text.Hex

/-!
MMC5, as far as it is wired: 8KB program banks, 1KB pattern banks, free nametable wiring and an interrupt at
a chosen scanline.
-/

namespace Famicom

/-- Registers of the MMC5. -/
structure Mmc5 where
  /-- The line at which the next comparison holds. -/
  counter : UInt8 := 0
  latch : UInt8 := 0
  enabled : Bool := false
  /-- An interrupt was raised. -/
  raised : Bool := false
  deriving DecidableEq, Repr, Inhabited

namespace Mmc5

/-- Where the board can be written. -/
def writeRanges : List AddressRange := [(0x5016, 0x5FFF), (0x8000, 0xFFFF)]

/-- Where the board can be read. -/
def readRanges : List AddressRange := [(0x5204, 0x5204)]

/-- Power-on: the last 8KB bank in every window. -/
def init : Mmc5 × List Signal :=
  ({}, [.prg 8 0x8000 lastBank, .prg 8 0xA000 lastBank, .prg 8 0xC000 lastBank,
    .prg 8 0xE000 lastBank])

/-- One write; an unknown register is logged, the extended RAM is not there. -/
def write (s : Mmc5) (address : UInt16) (value : UInt8) : Mmc5 × List Signal :=
  if 0x5C00 ≤ address && address ≤ 0x5FFF then (s, [])
  else if address = 0x5105 then
    (s, [.mirror (value &&& 3).toNat ((value >>> 2) &&& 3).toNat ((value >>> 4) &&& 3).toNat
      (value >>> 6).toNat])
  else if address = 0x5114 then (s, [.prg 8 0x8000 (bank value)])
  else if address = 0x5115 then (s, [.prg 8 0x8000 (bank value), .prg 8 0xA000 (bank value + 1)])
  else if address = 0x5116 then (s, [.prg 8 0xC000 (bank value)])
  else if 0x5120 ≤ address && address ≤ 0x5123 then
    (s, [.chr 1 ((address &&& 3) <<< 10) (bank value)])
  else if 0x5128 ≤ address && address ≤ 0x512B then
    (s, [.chr 1 (((address &&& 3) <<< 10) ||| 0x1000) (bank value)])
  else if address = 0x5203 then ({ s with counter := value, latch := value }, [])
  else if address = 0x5204 then ({ s with enabled := value &&& 0x80 != 0 }, [])
  else (s, [.log s!"unknown mmc5 write: ${Hex.byte value} to ${Hex.word address}"])

/-- The interrupt status. -/
def read (s : Mmc5) : UInt8 := if s.raised then 0x40 else 0

/-- The end of a line: the counted line has come, whether or not it interrupts. -/
def hblank (s : Mmc5) (view : View) : Mmc5 × List Signal :=
  if bank s.counter = view.scanline then
    let s' := { s with counter := s.latch }
    if s.enabled then ({ s' with raised := true }, [.irq]) else (s', [])
  else (s, [])

end Mmc5

end Famicom
