import Famicom.Cartridge

/-!
The processor: registers, 2KB of internal RAM, the windows of the CPU address space and the clock.

    P   N V 1 B D I Z C       bit 5 always reads as set; B is only meaningful in pushed copies

Time is kept in three numbers. `clock` counts the cycles that ever elapsed. `budget` is what is left of
the current time slice and may go below zero, since an instruction is never cut short. `owed` are cycles
spent outside instructions (DMA, interrupt entry), paid at the start of the next slice.
-/

namespace Famicom

/-- Status flags. -/
inductive Flag where
  | carry | zero | interrupt | decimal | break | unused | overflow | negative
  deriving DecidableEq, Repr, Inhabited

/-- The bit of a flag in the status register. -/
def Flag.mask : Flag → UInt8
  | .carry => 0x01
  | .zero => 0x02
  | .interrupt => 0x04
  | .decimal => 0x08
  | .break => 0x10
  | .unused => 0x20
  | .overflow => 0x40
  | .negative => 0x80

/-- The processor with what it sees and how far it has come. -/
structure Cpu where
  a : UInt8 := 0
  x : UInt8 := 0
  y : UInt8 := 0
  p : UInt8 := 0x26
  s : UInt8 := 0xFF
  pc : UInt16 := 0
  ram : Memory 0x800 := Memory.zero 0x800
  pages : PageTable := PageTable.blank.put 0 ⟨.ram, 0⟩
  /-- An interrupt request came while interrupts were masked. -/
  pending : Bool := false
  /-- A JAM opcode stopped the processor until the next reset. -/
  jammed : Bool := false
  owed : Int := 0
  budget : Int := 0
  clock : Nat := 0
  deriving Inhabited

namespace Cpu

/-- Where the processor finds the address of its NMI routine. -/
def nmiVector : UInt16 := 0xFFFA

/-- Where the processor finds its first instruction's address. -/
def resetVector : UInt16 := 0xFFFC

/-- Where the processor finds the address of its IRQ and BRK routine. -/
def irqVector : UInt16 := 0xFFFE

/-- Cycles that an interrupt entry takes. -/
def interruptCycles : Int := 7

/-- Cycles that a reset takes. -/
def resetCycles : Int := 6

/-- The status register after a reset: interrupts masked, zero set. -/
def resetStatus : UInt8 := 0x26

/-! ### Memory through the windows -/

/-- The byte that a window shows at an address. -/
def peek (c : Cpu) (cart : Cartridge) (address : UInt16) : UInt8 :=
  let page := c.pages.page (address.toNat / 0x1000)
  let index := page.offset + address.toNat % 0x1000
  match page.region with
  | .ram => c.ram.read index
  | region => cart.read region index

/-- The little-endian word at an address. -/
def peekWord (c : Cpu) (cart : Cartridge) (address : UInt16) : UInt16 :=
  let lo := c.peek cart address
  let hi := c.peek cart (address + 1)
  (hi.toUInt16 <<< 8) ||| lo.toUInt16

/-- The little-endian word in page zero, whose addresses wrap at 256. -/
def zeroPageWord (c : Cpu) (address : UInt8) : UInt16 :=
  let lo := c.ram.read address.toNat
  let hi := c.ram.read (address + 1).toNat
  (hi.toUInt16 <<< 8) ||| lo.toUInt16

/-! ### Flags -/

/-- Sets or clears a flag. -/
def setFlag (c : Cpu) (flag : Flag) (value : Bool) : Cpu :=
  { c with p := (if value then c.p ||| flag.mask else c.p &&& ~~~ flag.mask) ||| Flag.unused.mask }

/-- Whether a flag is set. -/
def flag (c : Cpu) (flag : Flag) : Bool := c.p &&& flag.mask != 0

/-- Sets zero and negative after a result. -/
def setResult (c : Cpu) (value : UInt8) : Cpu :=
  (c.setFlag .zero (value == 0)).setFlag .negative (value &&& 0x80 != 0)

/-! ### Stack -/

/-- Pushes a byte; the stack wraps within its 256 bytes. -/
def push (c : Cpu) (value : UInt8) : Cpu :=
  { c with ram := c.ram.write (0x100 + c.s.toNat) value, s := c.s - 1 }

/-- Moves the stack pointer to the byte pushed last. -/
def pull (c : Cpu) : UInt8 × Cpu :=
  let s := c.s + 1
  (c.ram.read (0x100 + s.toNat), { c with s })

/-- Pushes a word, high byte first. -/
def pushWord (c : Cpu) (value : UInt16) : Cpu :=
  (c.push (value >>> 8).toUInt8).push value.toUInt8

/-- Pulls a word, low byte first. -/
def pullWord (c : Cpu) : UInt16 × Cpu :=
  let (lo, c) := c.pull
  let (hi, c) := c.pull
  ((hi.toUInt16 <<< 8) ||| lo.toUInt16, c)

/-! ### Time -/

/-- Lets cycles elapse. -/
def spend (c : Cpu) (cycles : Int) : Cpu :=
  { c with budget := c.budget - cycles, clock := c.clock + cycles.toNat }

/-- Charges cycles spent outside instructions. -/
def charge (c : Cpu) (cycles : Int) : Cpu := { c with owed := c.owed + cycles }

/-- Ends the current slice after the running instruction. -/
def endSlice (c : Cpu) : Cpu := { c with budget := 0 }

/-! ### Interrupts -/

/-- Hardware interrupt entry: pushes the program counter and the status with B clear, masks interrupts
and continues at the vector. -/
def enter (c : Cpu) (cart : Cartridge) (vector : UInt16) : Cpu :=
  let c := c.pushWord c.pc
  let c := { c with p := c.p &&& ~~~ Flag.break.mask }
  let c := c.push (c.p ||| Flag.unused.mask)
  let c := { c with p := c.p ||| Flag.interrupt.mask }
  { c with pc := c.peekWord cart vector }

/-- Restarts the processor; the other registers and the clock keep their values. -/
def reset (c : Cpu) (cart : Cartridge) : Cpu :=
  { c with
    p := resetStatus
    pending := false
    pc := c.peekWord cart resetVector
    owed := resetCycles
    jammed := false }

/-- A non-maskable interrupt; a jammed processor does not hear it. -/
def nmi (c : Cpu) (cart : Cartridge) : Cpu :=
  if c.jammed then c else (c.enter cart nmiVector).charge interruptCycles

/-- An interrupt request: taken at once, or kept pending while interrupts are masked. -/
def irq (c : Cpu) (cart : Cartridge) : Cpu :=
  if c.jammed then c
  else if c.flag .interrupt then { c with pending := true }
  else (c.enter cart irqVector).charge interruptCycles

/-- Takes a pending request if interrupts are open and time is left. -/
def servePending (c : Cpu) (cart : Cartridge) : Cpu :=
  if !c.flag .interrupt && c.pending && c.budget > 0 then
    (({ c with pending := false }).enter cart irqVector).spend interruptCycles
  else c

end Cpu

end Famicom
