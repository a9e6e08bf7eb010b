import Famicom.Board.Signal
import Famicom.Memory

/-!
The SS8806: every bank number and the counter's period are written a nybble at a time, the low one at an even
address and the high one at the odd address above it. The counter is computed but never clocked.
-/

namespace Famicom

/-- Registers of the SS8806. -/
structure Ss8806 where
  prgLow : Memory 3 := Memory.zero 3
  prgHigh : Memory 3 := Memory.zero 3
  chrLow : Memory 8 := Memory.zero 8
  chrHigh : Memory 8 := Memory.zero 8
  period : Memory 4 := Memory.zero 4
  counter : UInt8 := 0
  enabled : Bool := false
  deriving Inhabited

namespace Ss8806

/-- Power-on stops the counter; the nybbles stay. -/
def init (s : Ss8806) : Ss8806 := { s with counter := 0, enabled := false }

/-- Writes one nybble of a program bank and shows the bank. -/
def writePrg (s : Ss8806) (window : Nat) (high : Bool) (value : UInt8) : Ss8806 × List Signal :=
  let nybble := value &&& 0x0F
  let s := if high then { s with prgHigh := s.prgHigh.write window nybble }
    else { s with prgLow := s.prgLow.write window nybble }
  let page : Int := 16 * bank (s.prgHigh.read window) + bank (s.prgLow.read window)
  (s, [.prg 8 (UInt16.ofNat (0x8000 + window * 0x2000)) page])

/-- Writes one nybble of a pattern bank and shows the bank. -/
def writeChr (s : Ss8806) (window : Nat) (high : Bool) (value : UInt8) : Ss8806 × List Signal :=
  let nybble := value &&& 0x0F
  let s := if high then { s with chrHigh := s.chrHigh.write window nybble }
    else { s with chrLow := s.chrLow.write window nybble }
  let page : Int := 16 * bank (s.chrHigh.read window) + bank (s.chrLow.read window)
  (s, [.chr 1 (UInt16.ofNat (window * 0x400)) page])

/-- Writes one nybble of the period, lowest first: the counter becomes the number of lines in it, as a
byte, less sixteen if it can be. -/
def writePeriod (s : Ss8806) (nybble : Nat) (value : UInt8) : Ss8806 :=
  let period := s.period.write nybble (value &&& 0x0F)
  let ticks := (period.read 0).toNat + 16 * (period.read 1).toNat + 256 * (period.read 2).toNat +
    4096 * (period.read 3).toNat
  let lines := UInt8.ofNat (ticks / 114)
  { s with period, counter := if lines > 15 then lines - 16 else lines }

/-- One write. -/
def write (s : Ss8806) (address : UInt16) (value : UInt8) : Ss8806 × List Signal :=
  let high := address &&& 1 != 0
  let offset := (address &&& 0x0FFF).toNat
  let pair := ((address >>> 1) &&& 1).toNat
  match (address >>> 12).toNat with
  | 0x8 => if offset < 4 then s.writePrg pair high value else (s, [])
  | 0x9 => if offset < 2 then s.writePrg 2 high value else (s, [])
  | 0xE => if offset < 4 then (s.writePeriod offset value, []) else (s, [])
  | 0xF =>
    match offset with
    | 0 => (if value &&& 1 != 0 then { s with enabled := true } else s, [])
    | 1 => ({ s with enabled := value &&& 1 != 0 }, [])
    | 2 =>
      match (value &&& 3).toNat with
      | 0 => (s, [.horizontal])
      | 1 => (s, [.vertical])
      | _ => (s, [.single 1])
    | _ => (s, [])
  | block =>
    if 0xA ≤ block && offset < 4 then s.writeChr (2 * (block - 0xA) + pair) high value else (s, [])

/-- What a snapshot keeps. -/
def save (s : Ss8806) : List UInt8 := [s.counter, 0, if s.enabled then 1 else 0]

/-- Takes a snapshot's bytes over. -/
def load (s : Ss8806) (bytes : Nat → UInt8) : Ss8806 :=
  { s with counter := bytes 0, enabled := bytes 2 != 0 }

end Ss8806

end Famicom
