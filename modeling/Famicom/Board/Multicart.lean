import Famicom.Board.Signal

/-!
Multicarts with an outer bank: the Caltron 6-in-1, whose outer register is the low address bits of a write
below the program ROM, and the Pelican Game Station, whose outer bits are the value of such a write.
-/

namespace Famicom

/-- Outer and inner bank bits of the Caltron. -/
structure Caltron where
  outer : UInt8 := 0
  inner : UInt8 := 0
  deriving DecidableEq, Repr, Inhabited

namespace Caltron

/-- Where the board can be written. -/
def writeRanges : List AddressRange := [(0x6000, 0x67FF), (0x8000, 0xFFFF)]

/-- Shows the pattern bank. -/
def showChr (s : Caltron) : Signal := .chr 8 0x0000 (bank (((s.outer >>> 1) &&& 0x0C) ||| s.inner))

/-- Power-on. -/
def init : Caltron × List Signal := ({}, [.prg 32 0x8000 0, showChr {}])

/-- One write. -/
def write (s : Caltron) (address : UInt16) (value : UInt8) : Caltron × List Signal :=
  if address < 0x8000 then
    let s := { s with outer := (address &&& 0x3F).toUInt8 }
    (s, [.prg 32 0x8000 (bank (s.outer &&& 7)), s.showChr, .horizontalIf (s.outer &&& 0x20 != 0)])
  else if s.outer &&& 4 != 0 then
    let s := { s with inner := value &&& 3 }
    (s, [s.showChr])
  else (s, [])

end Caltron

/-- Outer and inner bank bits of the Pelican. -/
structure Pelican where
  prgLow : UInt8 := 0
  prgHigh : UInt8 := 0
  chrLow : UInt8 := 0
  chrHigh : UInt8 := 0
  deriving DecidableEq, Repr, Inhabited

namespace Pelican

/-- Where the board can be written. -/
def writeRanges : List AddressRange := [(0x6000, 0xFFFF)]

/-- Shows both banks. -/
def showBanks (s : Pelican) : List Signal :=
  [.prg 32 0x8000 (bank ((s.prgHigh <<< 1) ||| s.prgLow)),
    .chr 8 0x0000 (bank ((s.chrHigh <<< 3) ||| s.chrLow))]

/-- Power-on. -/
def init : Pelican × List Signal := ({}, showBanks {})

/-- One write. -/
def write (s : Pelican) (address : UInt16) (value : UInt8) : Pelican × List Signal :=
  let s := if address &&& 0x8000 != 0 then
      { s with prgLow := value &&& 1, chrLow := (value >>> 4) &&& 7 }
    else { s with prgHigh := value &&& 0x0F, chrHigh := (value >>> 4) &&& 0x0F }
  (s, s.showBanks)

end Pelican

end Famicom
