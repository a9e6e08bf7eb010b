import Famicom.Board.Signal

/-!
MMC2: each 4KB pattern window has two banks, and drawing tile FD or FE chooses between them.

    tile FD drawn from a window ─▶ its first bank        tile FE ─▶ its second bank
-/

namespace Famicom

/-- Registers of the MMC2. -/
structure Mmc2 where
  /-- The choosing tile drawn last from the lower window. -/
  latchLow : UInt8 := 0xFE
  /-- The choosing tile drawn last from the upper window. -/
  latchHigh : UInt8 := 0xFE
  lowFd : UInt8 := 0
  lowFe : UInt8 := 0
  highFd : UInt8 := 0
  highFe : UInt8 := 0
  deriving DecidableEq, Repr, Inhabited

namespace Mmc2

/-- Where the board can be written. -/
def writeRanges : List AddressRange := [(0xA000, 0xFFFF)]

/-- Power-on: the last three 8KB banks are fixed. -/
def init (view : View) : Mmc2 × List Signal :=
  ({}, [.prg 8 0x8000 0, .prg 8 0xA000 (view.prg8 - 3), .prg 8 0xC000 (view.prg8 - 2),
    .prg 8 0xE000 (view.prg8 - 1)])

/-- One write. -/
def write (s : Mmc2) (address : UInt16) (value : UInt8) : Mmc2 × List Signal :=
  let block := address >>> 12
  if block = 0xA then (s, [.prg 8 0x8000 (bank value)])
  else if block = 0xB then
    ({ s with lowFd := value }, if s.latchLow = 0xFD then [.chr 4 0x0000 (bank value)] else [])
  else if block = 0xC then
    ({ s with lowFe := value }, if s.latchLow = 0xFE then [.chr 4 0x0000 (bank value)] else [])
  else if block = 0xD then
    ({ s with highFd := value }, if s.latchHigh = 0xFD then [.chr 4 0x1000 (bank value)] else [])
  else if block = 0xE then
    ({ s with highFe := value }, if s.latchHigh = 0xFE then [.chr 4 0x1000 (bank value)] else [])
  else (s, [.horizontalIf (value &&& 1 != 0)])

/-- The renderer drew a tile from the window at `base`: the new registers and, if the tile chooses, the
bank that the window shows from now on. -/
def drawn (s : Mmc2) (base : UInt16) (tile : UInt8) : Mmc2 × Option Int :=
  if tile = 0xFD then
    if base = 0 then ({ s with latchLow := tile }, some (bank s.lowFd))
    else ({ s with latchHigh := tile }, some (bank s.highFd))
  else if tile = 0xFE then
    if base = 0 then ({ s with latchLow := tile }, some (bank s.lowFe))
    else ({ s with latchHigh := tile }, some (bank s.highFe))
  else (s, none)

/-- What a snapshot keeps. -/
def save (s : Mmc2) : List UInt8 :=
  [s.latchLow, s.latchHigh, s.lowFd, s.lowFe, s.highFd, s.highFe]

/-- Takes a snapshot's bytes over. -/
def load (bytes : Nat → UInt8) : Mmc2 :=
  ⟨bytes 0, bytes 1, bytes 2, bytes 3, bytes 4, bytes 5⟩

end Mmc2

end Famicom
