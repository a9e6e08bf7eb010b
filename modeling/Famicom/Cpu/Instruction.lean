import Famicom.Cpu

/-!
What an instruction is: how it finds its operand (`Mode`), what it does with it (`Load`, `Store`,
`Modify`, `Implied`), and the handful that steer control.

    load     operand ─▶ registers          branch   flag = value ─▶ pc
    store    registers ─▶ memory           skip     operand bytes passed over, never read
    modify   memory ─▶ memory, flags       jam      stops the processor

Base costs are part of a shape and a mode, not of an opcode: every load at an absolute address costs
four cycles, every store at an indexed one five.
-/

namespace Famicom

/-- How an instruction finds its operand. -/
inductive Mode where
  | immediate
  | zeroPage | zeroPageX | zeroPageY
  | absolute | absoluteX | absoluteY
  | indirectX | indirectY
  deriving DecidableEq, Repr, Inhabited

namespace Mode

/-- Operand bytes after the opcode. -/
def size : Mode → UInt16
  | .absolute | .absoluteX | .absoluteY => 2
  | _ => 1

/-- Cycles of a load, before the extra one for a crossed page. -/
def loadCost : Mode → Int
  | .immediate => 2
  | .zeroPage => 3
  | .zeroPageX | .zeroPageY | .absolute | .absoluteX | .absoluteY => 4
  | .indirectX => 6
  | .indirectY => 5

/-- Cycles of a store. -/
def storeCost : Mode → Int
  | .immediate => 2
  | .zeroPage => 3
  | .zeroPageX | .zeroPageY | .absolute => 4
  | .absoluteX | .absoluteY => 5
  | .indirectX | .indirectY => 6

/-- Cycles of a read-modify-write. -/
def modifyCost : Mode → Int
  | .immediate => 2
  | .zeroPage => 5
  | .zeroPageX | .zeroPageY | .absolute => 6
  | .absoluteX | .absoluteY => 7
  | .indirectX | .indirectY => 8

end Mode

/-- Instructions that read a value into the registers. -/
inductive Load where
  | lda | ldx | ldy | lax | las
  | ora | and | eor | adc | sbc
  | cmp | cpx | cpy | bit
  | anc | asr | arr | ane | lxa | sbx
  deriving DecidableEq, Repr, Inhabited

/-- Instructions that write a register to memory. -/
inductive Store where
  | sta | stx | sty | sax | sha | shx | shy | shs
  deriving DecidableEq, Repr, Inhabited

/-- Instructions that read a byte, change it and write it back. -/
inductive Modify where
  | asl | rol | lsr | ror | dec | inc
  | slo | rla | sre | rra | dcp | isb
  deriving DecidableEq, Repr, Inhabited

/-- Instructions without an operand. -/
inductive Implied where
  | clc | sec | cli | sei | cld | sed | clv
  | tax | tay | txa | tya | tsx | txs
  | inx | iny | dex | dey
  | pha | php | pla | plp
  deriving DecidableEq, Repr, Inhabited

/-- Cycles of an instruction without an operand. -/
def Implied.cost : Implied → Int
  | .pha | .php => 3
  | .pla | .plp => 4
  | _ => 2

/-- One instruction. -/
inductive Instruction where
  | load (op : Load) (mode : Mode)
  | store (op : Store) (mode : Mode)
  | modify (op : Modify) (mode : Mode)
  /-- A read-modify-write on the accumulator. -/
  | accumulator (op : Modify)
  | implied (op : Implied)
  /-- A jump relative to the next instruction, taken when the flag has the value. -/
  | branch (flag : Flag) (value : Bool)
  | brk | jsr | rti | rts | jmp | jmpIndirect
  /-- Passes over operand bytes without reading them. -/
  | skip (operands : UInt16) (cost : Int)
  | jam
  deriving DecidableEq, Repr, Inhabited

end Famicom
