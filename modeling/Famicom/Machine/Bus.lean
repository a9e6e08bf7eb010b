import Famicom.Machine
import Famicom.Ppu.Register

/-!
The processor's bus: who answers an access.

    $0000-$1FFF   internal RAM, repeated        $4014   sprite transfer (write)
    $2000-$3FFF   picture unit                  $4016   controllers, strobe
    $4000-$4015   sound unit                    $4017   controllers, frame interrupt
    above         the cartridge's sound chip, then its board, each where it listens; else open bus up to
                  $5FFF, battery RAM (or what the windows show) up to $7FFF, and ROM
-/

namespace Famicom.Machine

/-- Space in which nothing answers unless the cartridge does. -/
def openBus : List AddressRange := [(0x4018, 0x5FFF)]

/-- A read that reaches the cartridge. -/
def readCartridge (m : Machine) (address : UInt16) : UInt8 :=
  let chip := m.sound.expansion.filter fun e => covered e.readRanges address
  let board := m.board.filter fun b => covered b.readRanges address
  match chip, board with
  | some e, _ => e.read address
  | none, some b => b.read address
  | none, none => if covered openBus address then 0xFF else m.cpu.peek m.cart address

/-- A read by the processor. -/
def read (m : Machine) (address : UInt16) : UInt8 × Machine :=
  if address < 0x2000 then (m.cpu.ram.read address.toNat, m)
  else if address ≥ 0x8000 then (m.cpu.peek m.cart address, m)
  else if address < 0x4000 then
    let (value, ppu) := m.ppu.readRegister m.cart address m.cpu.clock
    (value, { m with ppu }.drainNotes)
  else if address < 0x4015 then (m.sound.read address, m)
  else if address = 0x4015 then
    let (flag, timer) := m.timer.read
    (m.sound.read address ||| flag, { m with timer })
  else if address = 0x4016 then
    let (value, pads) := m.pads.read Device.pad1.mask
    (value, { m with pads })
  else if address = 0x4017 then
    let (value, pads) := m.pads.read (Device.zapper.mask ||| Device.pad2.mask)
    (value, { m with pads })
  else (m.readCartridge address, m)

/-- Stores a byte where a window shows memory that can be written. -/
def poke (m : Machine) (address : UInt16) (value : UInt8) : Machine :=
  let page := m.cpu.pages.page (address.toNat / 0x1000)
  let index := page.offset + address.toNat % 0x1000
  match page.region with
  | .ram => { m with cpu.ram := m.cpu.ram.write index value }
  | region => { m with cart := m.cart.write region index value }

/-- A write that reaches the cartridge. ROM cannot be written. -/
def writeCartridge (m : Machine) (address : UInt16) (value : UInt8) : Machine :=
  let chip := m.sound.expansion.filter fun e => covered e.writeRanges address
  let board := m.board.filter fun b => covered b.writeRanges address
  match chip, board with
  | some e, _ => { m with sound.expansion := some (e.write address value) }
  | none, some _ => m.boardWrite address value
  | none, none =>
    if covered openBus address || address ≥ 0x8000 then m else m.poke address value

/-- The 256 bytes of a page, as the windows show them. -/
def block (m : Machine) (page : UInt8) : Memory 0x100 :=
  Vector.ofFn fun i => m.cpu.peek m.cart ((page.toUInt16 <<< 8) + UInt16.ofNat i.val)

/-- Cycles that a sprite transfer takes from the processor. -/
def transferCycles : Int := 513

/-- Transfers a page to sprite memory; the processor is stalled and its slice ends. -/
def transferSprites (m : Machine) (page : UInt8) : Machine :=
  { m with ppu := m.ppu.transfer (m.block page), cpu := (m.cpu.charge transferCycles).endSlice }

/-- A write to the strobe, which some boards watch too. -/
def writeStrobe (m : Machine) (value : UInt8) : Machine :=
  let m := m.withBoard fun board => (board, board.strobe value)
  { m with pads := m.pads.writeStrobe value }

/-- A write by the processor. -/
def write (m : Machine) (address : UInt16) (value : UInt8) : Machine :=
  if address < 0x2000 then { m with cpu.ram := m.cpu.ram.write address.toNat value }
  else if address < 0x4000 then
    let (ppu, cart) := m.ppu.writeRegister m.cart address value
    { m with ppu, cart }.drainNotes
  else if address = 0x4014 then m.transferSprites value
  else if address < 0x4016 then { m with sound := m.sound.write address value }
  else if address = 0x4016 then m.writeStrobe value
  else if address = 0x4017 then { m with timer := m.timer.write value }
  else m.writeCartridge address value

end Famicom.Machine
