import Famicom.Board.Vrc
import Famicom.Text.Hex

/-!
VRC7: three 8KB program banks, eight 1KB pattern banks and a line counter. Every 4KB block holds two
registers. The synthesizer's two registers are taken by the sound side.
-/

namespace Famicom

/-- Registers of the VRC7. -/
structure Vrc7 where
  line : VrcCounter := {}
  deriving DecidableEq, Repr, Inhabited

namespace Vrc7

/-- Power-on windows. -/
def init : Vrc7 × List Signal :=
  ({}, [.prg 16 0x8000 0, .prg 16 0xC000 lastBank, .chr 8 0x0000 0])

/-- The second register of a block answers when either of two address lines is up. -/
def odd (address : UInt16) : Bool := address &&& 0x18 != 0

/-- One write; a block without a register is logged. -/
def write (s : Vrc7) (address : UInt16) (value : UInt8) : Vrc7 × List Signal :=
  let odd := odd address
  let v := bank value
  match (address >>> 12).toNat with
  | 0x8 => (s, [.prg 8 (if odd then 0xA000 else 0x8000) v])
  | 0x9 => (s, [.prg 8 0xC000 v])
  | 0xA => (s, [.chr 1 (if odd then 0x0400 else 0x0000) v])
  | 0xB => (s, [.chr 1 (if odd then 0x0C00 else 0x0800) v])
  | 0xC => (s, [.chr 1 (if odd then 0x1400 else 0x1000) v])
  | 0xD => (s, [.chr 1 (if odd then 0x1C00 else 0x1800) v])
  | 0xE =>
    if odd then ({ s with line := { s.line with latch := value } }, [])
    else (s, [.vrcWiring value])
  | 0xF =>
    if odd then ({ s with line := s.line.acknowledge }, [])
    else ({ s with line := s.line.control value }, [])
  | _ => (s, [.log s!"unhandled vrc7 write: ${Hex.byte value} to ${Hex.word address}"])

/-- The end of a line: this counter stays on after its interrupt whatever the control said. -/
def hblank (s : Vrc7) : Vrc7 × List Signal :=
  let c := s.line
  if !c.enabled then (s, [])
  else if c.counter + 1 > 0xFF then (⟨{ c with counter := c.latch.toNat }⟩, [.irq])
  else (⟨{ c with counter := c.counter + 1 }⟩, [])

end Vrc7

end Famicom
