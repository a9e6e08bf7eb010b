import Famicom.Proofs.Closure
import Famicom.Proofs.Slice
import Famicom.Proofs.SoundUnit

/-!
A processor that has stopped. No interrupt enters it, a slice runs no instruction, and what is left of a
machine is the picture unit's beam: it draws, and the lines and frames go on being counted.

    nmi, irq    ──╳                     slice    owed, budget, clock
    board       windows, log            line     pixels, flags, the address, scanline + 1
    sample voice  owed                  frame    scanline := 0, frames + 1

Everything else stands still (`Machine.standstill`), so a stop holds as long as nobody writes or resets.
-/

namespace Famicom

/-! ### The processor -/

/-- What a stopped processor keeps: everything but its windows and its accounts of time. -/
structure Cpu.Registers where
  a : UInt8
  x : UInt8
  y : UInt8
  p : UInt8
  s : UInt8
  pc : UInt16
  ram : Memory 0x800
  pending : Bool
  jammed : Bool

namespace Cpu

variable {c : Cpu}

/-- The registers of a processor, with the marks of a stop and of a waiting interrupt. -/
def registers (c : Cpu) : Registers := ⟨c.a, c.x, c.y, c.p, c.s, c.pc, c.ram, c.pending, c.jammed⟩

end Cpu

/-! ### The machine -/

namespace Machine

variable {m n : Machine}

end Machine

end Famicom
