import Famicom.Board.Signal

/-!
The FCG: eight 1KB pattern banks, a 16KB program bank and a sixteen-bit down-counter clocked once per line.
Its registers repeat at $6000, $7FF0 and $8000; the low four address bits choose one.
-/

namespace Famicom

/-- The line counter of the FCG. -/
structure Fcg where
  counter : UInt16 := 0
  enabled : Bool := false
  deriving DecidableEq, Repr, Inhabited

namespace Fcg

/-- Where the board can be written. -/
def writeRanges : List AddressRange := [(0x6000, 0x600D), (0x7FF0, 0x7FFD), (0x8000, 0x800D)]

/-- Power-on. -/
def init : Fcg × List Signal := ({}, [.prg 16 0x8000 0, .prg 16 0xC000 lastBank])

/-- One write; register D is the serial memory's line, which has nothing behind it. -/
def write (s : Fcg) (address : UInt16) (value : UInt8) : Fcg × List Signal :=
  let register := address &&& 0x0F
  if register < 8 then (s, [.chr 1 (register <<< 10) (bank value)])
  else match register.toNat with
    | 0x8 => (s, [.prg 16 0x8000 (bank value)])
    | 0x9 =>
      match (value &&& 3).toNat with
      | 0 => (s, [.horizontal])
      | 1 => (s, [.vertical])
      | 2 => (s, [.single 0])
      | _ => (s, [.single 1])
    | 0xA => ({ s with enabled := value &&& 1 != 0 }, [])
    | 0xB => ({ s with counter := (s.counter &&& 0xFF00) ||| value.toUInt16 }, [])
    | 0xC => ({ s with counter := (value.toUInt16 <<< 8) ||| (s.counter &&& 0x00FF) }, [])
    | _ => (s, [])

/-- The end of a line: reaching zero interrupts, and the counter rests there. -/
def hblank (s : Fcg) : Fcg × List Signal :=
  if s.enabled && s.counter != 0 then
    let s := { s with counter := s.counter - 1 }
    (s, if s.counter = 0 then [.irq] else [])
  else (s, [])

/-- What a snapshot keeps. -/
def save (s : Fcg) : List UInt8 :=
  [s.counter.toUInt8, (s.counter >>> 8).toUInt8, if s.enabled then 1 else 0]

/-- Takes a snapshot's bytes over. -/
def load (bytes : Nat → UInt8) : Fcg :=
  ⟨((bytes 1).toUInt16 <<< 8) ||| (bytes 0).toUInt16, bytes 2 != 0⟩

end Fcg

end Famicom
