import Famicom.Board.Signal

/-!
Boards that are all latch: a write picks banks at once, nothing is remembered beyond the windows, no line is
ever counted. Such a board has no state; it is told apart by its wiring alone.
-/

namespace Famicom

/-- The latch-only boards. -/
inductive LatchBoard where
  | nrom | unrom | cnrom | aorom | frontFarEast | colorDreams | contra100 | taito | nina1 | gnrom
  | bandai70 | irem78 | nina3 | vrom87 | board93 | board94 | versus | bootleg31 | nina7
  deriving DecidableEq, Repr, Inhabited

namespace LatchBoard

/-- The mapper number. -/
def number : LatchBoard → UInt8
  | .nrom => 0
  | .unrom => 2
  | .cnrom => 3
  | .aorom => 7
  | .frontFarEast => 8
  | .colorDreams => 11
  | .contra100 => 15
  | .taito => 33
  | .nina1 => 34
  | .gnrom => 66
  | .bandai70 => 70
  | .irem78 => 78
  | .nina3 => 79
  | .vrom87 => 87
  | .board93 => 93
  | .board94 => 94
  | .versus => 99
  | .bootleg31 => 229
  | .nina7 => 231

/-- Where the latch can be written. -/
def writeRanges : LatchBoard → List AddressRange
  | .nrom | .versus => []
  | .nina1 => [(0x7FFD, 0xFFFF)]
  | .nina3 => [(0x4100, 0x5FFF)]
  | .vrom87 => [(0x6000, 0x7FFF)]
  | _ => romRange

/-- The windows at power-on, where they differ from the console's own. -/
def init : LatchBoard → List Signal
  | .aorom | .frontFarEast | .colorDreams | .contra100 => [.prg 32 0x8000 0]
  | .gnrom | .nina3 | .bootleg31 => [.prg 32 0x8000 0, .chr 8 0x0000 0]
  | .nina1 | .nina7 => [.prg 32 0x8000 lastBank]
  | .versus => [.fourScreen]
  | _ => []

/-- The 100-in-1 board: the low address bits choose which windows move. -/
def writeContra (address : UInt16) (value : UInt8) : List Signal :=
  let base := 2 * bank (value &&& 0x3F)
  let swap := bank (value >>> 7)
  let other := 1 - swap
  let upper := [Signal.prg 8 0xC000 (base + swap), .prg 8 0xE000 (base + other)]
  let wiring := Signal.horizontalIf (value &&& 0x40 != 0)
  if address &&& 3 = 0 then
    [.prg 8 0x8000 (base + swap), .prg 8 0xA000 (base + other),
      .prg 8 0xC000 (base + 2 + swap), .prg 8 0xE000 (base + 2 + other), wiring]
  else if address &&& 3 = 1 then upper
  else if address &&& 3 = 2 then
    [.prg 8 0x8000 (base + swap), .prg 8 0xA000 (base + swap),
      .prg 8 0xC000 (base + swap), .prg 8 0xE000 (base + swap)]
  else upper ++ [wiring]

/-- The TC0190: address bits 14-13 and 1-0 choose the register. -/
def writeTaito (address : UInt16) (value : UInt8) : List Signal :=
  let register := address &&& 3
  let group := (address >>> 13) &&& 3
  if group = 0 then
    if register = 0 then [.prg 8 0x8000 (bank value)]
    else if register = 1 then [.prg 8 0xA000 (bank value)]
    else if register = 2 then [.chr 2 0x0000 (bank value)]
    else [.chr 2 0x0800 (bank value)]
  else if group = 1 then [.chr 1 ((register <<< 10) + 0x1000) (bank value)]
  else if register < 2 then [.horizontalIf (value &&& 1 != 0)]
  else []

/-- The 31-in-1: the written address is the bank, the value is ignored. -/
def writeBootleg31 (address : UInt16) : List Signal :=
  let b : Int := ((address &&& 0x1F).toNat : Int)
  let program := if address &&& 0x1E = 0 then [Signal.prg 32 0x8000 0]
    else [.prg 16 0x8000 b, .prg 16 0xC000 b]
  .chr 8 0x0000 b :: program ++ [.horizontalIf (address &&& 0x20 != 0)]

/-- What a write asks for. -/
def write (board : LatchBoard) (view : View) (address : UInt16) (value : UInt8) : List Signal :=
  match board with
  | .nrom | .versus => []
  | .unrom => [.prg 16 0x8000 (bank value)]
  | .cnrom => [.chr 8 0x0000 (bank value)]
  | .aorom => [.prg 32 0x8000 (bank value), .single ((value >>> 4) &&& 1).toNat]
  | .frontFarEast => [.prg 16 0x8000 (bank (value >>> 3)), .chr 8 0x0000 (bank (value &&& 7))]
  | .colorDreams => [.prg 32 0x8000 (bank (value &&& 0x0F)), .chr 8 0x0000 (bank (value >>> 4))]
  | .contra100 => writeContra address value
  | .taito => writeTaito address value
  | .nina1 =>
    if address &&& 0x8000 != 0 || address == 0x7FFD then [.prg 32 0x8000 (bank value)]
    else if address = 0x7FFE then [.chr 4 0x0000 (bank value)]
    else if address = 0x7FFF then [.chr 4 0x1000 (bank value)]
    else []
  | .gnrom => [.prg 32 0x8000 (bank ((value >>> 4) &&& 3)), .chr 8 0x0000 (bank (value &&& 3))]
  | .bandai70 =>
    let wiring := if view.fourScreen then Signal.horizontalIf (value &&& 0x80 != 0)
      else .single (value >>> 7).toNat
    [.prg 16 0x8000 (bank ((value >>> 4) &&& 7)), .chr 8 0x0000 (bank (value &&& 0x0F)), wiring]
  | .irem78 =>
    let wiring := if view.fourScreen then Signal.horizontalIf (value &&& 0x08 == 0)
      else .single ((value >>> 3) &&& 1).toNat
    [.prg 16 0x8000 (bank (value &&& 7)), .chr 8 0x0000 (bank (value >>> 4)), wiring]
  | .nina3 =>
    if address &&& 0x5100 = 0x4100 then
      [.prg 32 0x8000 (bank ((value >>> 3) &&& 1)), .chr 8 0x0000 (bank (value &&& 7))]
    else []
  | .vrom87 => [.chr 8 0x0000 (bank ((value >>> 1) &&& 1))]
  | .board93 => [.prg 16 0x8000 (bank (value >>> 4)), .horizontalIf (value &&& 1 == 0)]
  | .board94 => [.prg 16 0x8000 (bank (value >>> 2))]
  | .bootleg31 => writeBootleg31 address
  | .nina7 =>
    [.prg 32 0x8000 (bank (((value &&& 0x80) >>> 5) ||| (value &&& 3))),
      .chr 8 0x0000 (bank ((value >>> 4) &&& 7))]

/-- What a write to the controller strobe asks for: the versus cabinet picks its pattern bank by it. -/
def strobe (board : LatchBoard) (value : UInt8) : List Signal :=
  match board with
  | .versus => [.chr 8 0x0000 (bank ((value >>> 2) &&& 1))]
  | _ => []

end LatchBoard

end Famicom
