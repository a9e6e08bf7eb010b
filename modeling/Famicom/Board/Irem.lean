import Famicom.Board.Signal

/-!
Irem's boards: the G-101 with its movable program window, and the H-3001, whose counter is latched but never
clocked.
-/

namespace Famicom

/-- Registers of the G-101. -/
structure IremG101 where
  /-- The first program register moves $C000 instead of $8000. -/
  swapped : Bool := false
  deriving DecidableEq, Repr, Inhabited

/-- One write to a G-101. -/
def IremG101.write (s : IremG101) (address : UInt16) (value : UInt8) : IremG101 × List Signal :=
  match (address >>> 12).toNat with
  | 0x8 => (s, [.prg 8 (if s.swapped then 0xC000 else 0x8000) (bank value)])
  | 0x9 => (⟨value &&& 2 != 0⟩, [.horizontalIf (value &&& 1 != 0)])
  | 0xA => (s, [.prg 8 0xA000 (bank value)])
  | 0xB => (s, [.chr 1 ((address &&& 7) <<< 10) (bank value)])
  | _ => (s, [])

/-- Registers of the H-3001. -/
structure IremH3001 where
  counter : UInt8 := 0
  enabled : Bool := false
  low : UInt8 := 0
  high : UInt8 := 0
  deriving DecidableEq, Repr, Inhabited

namespace IremH3001

/-- Sets the counter from the latched period, in units of 128 cycles. -/
def reload (s : IremH3001) : IremH3001 :=
  { s with counter := UInt8.ofNat ((256 * s.high.toNat + s.low.toNat) / 128) }

/-- One write. -/
def write (s : IremH3001) (address : UInt16) (value : UInt8) : IremH3001 × List Signal :=
  let register := (address &&& 7).toNat
  match (address >>> 12).toNat with
  | 0x8 => (s, [.prg 8 0x8000 (bank value)])
  | 0xA => (s, [.prg 8 0xA000 (bank value)])
  | 0xC => (s, [.prg 8 0xC000 (bank value)])
  | 0xB => (s, [.chr 1 ((address &&& 7) <<< 10) (bank value)])
  | 0x9 =>
    match register with
    | 4 => ({ s with enabled := value &&& 1 == 0 }, [])
    | 5 => ({ s with high := value }.reload, [])
    | 6 => ({ s with low := value }.reload, [])
    | _ => (s, [])
  | _ => (s, [])

/-- What a snapshot keeps. -/
def save (s : IremH3001) : List UInt8 := [s.counter, if s.enabled then 1 else 0, s.low, s.high]

/-- Takes a snapshot's bytes over. -/
def load (bytes : Nat → UInt8) : IremH3001 := ⟨bytes 0, bytes 1 != 0, bytes 2, bytes 3⟩

end IremH3001

end Famicom
