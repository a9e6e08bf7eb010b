import Famicom.Cpu.Address
import Famicom.Cpu.Alu
import Famicom.Cpu.Opcode
import Famicom.Machine.Bus

/-!
Running programs. A time slice pays what the processor owes, takes a waiting interrupt and then runs whole
instructions until its budget is used up; the last one may overdraw it.

    slice ──▶ owed cycles ──▶ waiting interrupt ──▶ instruction ──▶ … ──▶ budget ≤ 0

Opcode and operand bytes come through the windows; operands in memory go over the bus.
-/

namespace Famicom

namespace Cpu

/-- Pays owed cycles, as far as the budget reaches. -/
def payOwed (c : Cpu) : Cpu :=
  if c.owed > 0 ∧ c.budget > 0 then
    let paid := min c.owed c.budget
    { c.spend paid with owed := c.owed - paid }
  else c

/-- A jammed processor lets its whole slice elapse. -/
def idleIfJammed (c : Cpu) : Cpu := if c.jammed ∧ c.budget > 0 then c.spend c.budget else c

/-- A software interrupt. It keeps its break flag, unlike a hardware interrupt. -/
def brk (c : Cpu) (cart : Cartridge) : Cpu :=
  let c := c.advance 1
  let c := c.pushWord c.pc
  let c := { c with p := c.p ||| Flag.break.mask }
  let c := c.push (c.p ||| Flag.unused.mask)
  let c := c.setFlag .interrupt true
  { c with pc := c.peekWord cart irqVector }

/-- A call. The return address on the stack is the last byte of the call itself. -/
def jsr (c : Cpu) (cart : Cartridge) : Cpu :=
  let target := c.peekWord cart c.pc
  { c.pushWord (c.pc + 1) with pc := target }

/-- A return from an interrupt. -/
def rti (c : Cpu) : Cpu :=
  let (p, c) := c.pull
  let (pc, c) := { c with p := p ||| Flag.unused.mask }.pullWord
  { c with pc }

/-- A return from a call. -/
def rts (c : Cpu) : Cpu :=
  let (pc, c) := c.pullWord
  { c with pc := pc + 1 }

/-- The target of an indirect jump: the pointer's high byte is fetched from the same page. -/
def indirectTarget (c : Cpu) (cart : Cartridge) : UInt16 :=
  let pointer := c.peekWord cart c.pc
  let lo := c.peek cart pointer
  let hi := c.peek cart (if pointer &&& 0xFF = 0xFF then pointer &&& 0xFF00 else pointer + 1)
  (hi.toUInt16 <<< 8) ||| lo.toUInt16

end Cpu

/-- Instructions after which a waiting interrupt is taken at once. -/
def Instruction.opensInterrupts : Instruction → Bool
  | .rti | .implied .cli => true
  | _ => false

namespace Machine

/-- Changes the processor. -/
def mapCpu (m : Machine) (f : Cpu → Cpu) : Machine := { m with cpu := f m.cpu }

/-- Reads an operand and applies it. -/
def load (m : Machine) (op : Load) (mode : Mode) : Int × Machine :=
  let address := m.cpu.effective m.cart mode
  let cost := mode.loadCost + if m.cpu.crossed mode address then 1 else 0
  let m := m.mapCpu (·.advance mode.size)
  if mode = .immediate then
    let value := m.cpu.peek m.cart address
    (cost, m.mapCpu (op.apply · value))
  else
    let (value, m) := m.read address
    (cost, m.mapCpu (op.apply · value))

/-- Writes a register. -/
def store (m : Machine) (op : Store) (mode : Mode) : Int × Machine :=
  let address := m.cpu.effective m.cart mode
  let (value, cpu) := op.value (m.cpu.advance mode.size) address
  (mode.storeCost, { m with cpu }.write address value)

/-- Reads a byte, changes it and writes it back. -/
def modify (m : Machine) (op : Modify) (mode : Mode) : Int × Machine :=
  let address := m.cpu.effective m.cart mode
  let (value, m) := m.mapCpu (·.advance mode.size) |>.read address
  let (value, cpu) := op.apply m.cpu value
  (mode.modifyCost, { m with cpu }.write address value)

/-- Changes the accumulator. -/
def modifyAccumulator (op : Modify) (c : Cpu) : Cpu :=
  let (value, c) := op.apply c c.a
  { c with a := value }

/-- Runs an instruction whose opcode has been fetched: the cycles it costs and the machine after it. -/
def perform (m : Machine) (instruction : Instruction) : Int × Machine :=
  match instruction with
  | .load op mode => m.load op mode
  | .store op mode => m.store op mode
  | .modify op mode => m.modify op mode
  | .accumulator op => (2, m.mapCpu (modifyAccumulator op))
  | .implied op => (op.cost, m.mapCpu op.apply)
  | .branch flag value =>
    let offset := m.cpu.peek m.cart m.cpu.pc
    let (cost, cpu) := (m.cpu.advance 1).branch offset (m.cpu.flag flag == value)
    (cost, { m with cpu })
  | .brk => (7, m.mapCpu (·.brk m.cart))
  | .jsr => (6, m.mapCpu (·.jsr m.cart))
  | .rti => (6, m.mapCpu (·.rti))
  | .rts => (6, m.mapCpu (·.rts))
  | .jmp => (3, m.mapCpu fun c => { c with pc := c.peekWord m.cart c.pc })
  | .jmpIndirect => (5, m.mapCpu fun c => { c with pc := c.indirectTarget m.cart })
  | .skip operands cost => (cost, m.mapCpu (·.advance operands))
  | .jam => (0, m)

/-- Stops the processor at an opcode that it cannot run. -/
def jam (m : Machine) (opcode : UInt8) (address : UInt16) : Machine :=
  let m := m.mapCpu fun c =>
    ({ c with pc := address, jammed := true, pending := false }.spend 2).endSlice
  m.note s!"CPU jammed by ${Hex.byte opcode} @ ${Hex.word address}"

/-- Runs one instruction. -/
def step (m : Machine) : Machine :=
  let address := m.cpu.pc
  let opcode := m.cpu.peek m.cart address
  let instruction := Instruction.decode opcode
  if instruction = .jam then m.jam opcode address
  else
    let (cost, m) := (m.mapCpu (·.advance 1)).perform instruction
    let m := m.mapCpu (·.spend cost)
    if instruction.opensInterrupts then m.mapCpu (·.servePending m.cart) else m

/-- Runs instructions while there is budget, at most `fuel` of them. -/
def run : Nat → Machine → Machine
  | 0, m => m
  | fuel + 1, m => if m.cpu.budget > 0 then run fuel m.step else m

/-- Runs a slice; how many cycles elapsed. An instruction takes at least one cycle, so the budget bounds
their number. -/
def execute (m : Machine) (slice : Int) : Int × Machine :=
  let started := m.cpu.clock
  let m := m.mapCpu fun c =>
    ({ c with budget := slice }.payOwed.idleIfJammed).servePending m.cart
  let m := run m.cpu.budget.toNat m
  ((m.cpu.clock - started : Nat), m)

end Machine

end Famicom
