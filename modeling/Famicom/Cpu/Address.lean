import Famicom.Cpu.Instruction

/-!
Effective addresses. The operand bytes lie at the program counter; an indexed address whose high byte
differs from that of its base has crossed a page, which costs a load one more cycle. A branch finds out by the
carry or the borrow that its offset makes in the low byte.

    indexed low byte   = base low byte + index  (mod 256)
    page crossed       ⟺ the sum wrapped ⟺ index > indexed low byte
    page left          ⟺ bit 8 of low byte + signed offset
-/

namespace Famicom.Cpu

/-- The address an operand at the program counter stands for. -/
def effective (c : Cpu) (cart : Cartridge) : Mode → UInt16
  | .immediate => c.pc
  | .zeroPage => (c.peek cart c.pc).toUInt16
  | .zeroPageX => (c.peek cart c.pc + c.x).toUInt16
  | .zeroPageY => (c.peek cart c.pc + c.y).toUInt16
  | .absolute => c.peekWord cart c.pc
  | .absoluteX => c.peekWord cart c.pc + c.x.toUInt16
  | .absoluteY => c.peekWord cart c.pc + c.y.toUInt16
  | .indirectX => c.zeroPageWord (c.peek cart c.pc + c.x)
  | .indirectY => c.zeroPageWord (c.peek cart c.pc) + c.y.toUInt16

/-- Whether indexing carried an effective address into the next page. -/
def crossed (c : Cpu) (mode : Mode) (address : UInt16) : Bool :=
  match mode with
  | .absoluteX => c.x > address.toUInt8
  | .absoluteY | .indirectY => c.y > address.toUInt8
  | _ => false

/-- Moves the program counter over bytes. -/
def advance (c : Cpu) (bytes : UInt16) : Cpu := { c with pc := c.pc + bytes }

/-- A byte with its sign spread over the high byte of a word. -/
def signed (offset : UInt8) : UInt16 := if offset < 0x80 then offset.toUInt16 else offset.toUInt16 ||| 0xFF00

/-- The low byte of an address carries or borrows when the offset is added. -/
def leavesPage (address : UInt16) (offset : UInt8) : Bool := ((address &&& 0x00FF) + signed offset) &&& 0x0100 != 0

/-- A branch with the given offset byte, the program counter being past it: the cycles it takes and where
it leads. A taken branch costs one cycle more, two when it leaves its page. -/
def branch (c : Cpu) (offset : UInt8) (taken : Bool) : Int × Cpu :=
  if !taken then (2, c)
  else (if leavesPage c.pc offset then 4 else 3, { c with pc := c.pc + signed offset })

end Famicom.Cpu
