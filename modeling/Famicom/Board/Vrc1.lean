import Famicom.Board.Vrc

/-!
VRC1: 8KB program banks, and two 4KB pattern banks whose top bits live in the wiring register, so a write to
it moves both pattern windows.
-/

namespace Famicom

/-- Registers of the VRC1: low nybbles and high bits of two 4KB pattern banks. -/
structure Vrc1 where
  low : UInt8 := 0
  high : UInt8 := 0
  highBits : UInt8 := 0
  deriving DecidableEq, Repr, Inhabited

namespace Vrc1

/-- Shows the lower pattern bank. -/
def showLow (s : Vrc1) : Signal := .chr 4 0x0000 (bank (((s.highBits &&& 2) <<< 3) ||| s.low))

/-- Shows the upper pattern bank. -/
def showHigh (s : Vrc1) : Signal := .chr 4 0x1000 (bank (((s.highBits &&& 4) <<< 2) ||| s.high))

/-- One write. -/
def write (s : Vrc1) (address : UInt16) (value : UInt8) : Vrc1 × List Signal :=
  match (address >>> 12).toNat with
  | 0x8 => (s, [.prg 8 0x8000 (bank value)])
  | 0x9 =>
    let s := { s with highBits := value &&& 6 }
    (s, [s.showLow, s.showHigh, .horizontalIf (value &&& 1 == 0)])
  | 0xA => (s, [.prg 8 0xA000 (bank value)])
  | 0xC => (s, [.prg 8 0xC000 (bank value)])
  | 0xE =>
    let s := { s with low := value &&& 0x0F }
    (s, [s.showLow])
  | 0xF =>
    let s := { s with high := value &&& 0x0F }
    (s, [s.showHigh])
  | _ => (s, [])

end Vrc1

end Famicom
