import Famicom.Ppu
import Famicom.Text.Hex

/-!
The picture unit's registers, $2000-$2007, repeated every eight bytes up to $3FFF.

    $2000 control    $2002 status            $2004 sprite byte    $2006 address, twice
    $2001 mask       $2003 sprite address    $2005 scroll, twice  $2007 data

Every write, and a read of $2007, leaves its byte on the register bus, where reads of write-only registers
find it. A read of $2007 is one byte late: it returns what the read before it fetched.
-/

namespace Famicom.Ppu

/-- The address has wrapped into sixteen kilobytes after an access. -/
def step (p : Ppu) : Ppu := { p with vramAddress := (p.vramAddress + p.increment) &&& 0x3FFF }

/-- Whether picture memory is busy drawing. -/
def busy (p : Ppu) : Bool := p.enabled && !p.unlocked

/-- Where the current access goes, as remarks tell it. -/
def place (p : Ppu) : String := s!"${Hex.word p.vramAddress}, scanline {p.scanline}"

/-- A read of $2002: the flags, and the rest of the bus below them. Ends vertical blank and the write pair. -/
def readStatus (p : Ppu) (clock : Nat) : UInt8 × Ppu :=
  let due := p.hit && p.hitAt.any (· ≤ clock)
  let value := (p.status &&& 0xE0) ||| (p.bus &&& 0x1F) ||| (if due then 0x40 else 0)
  (value, { p with status := p.status &&& 0x7F, toggle := false })

/-- A read of $2007. The upper copy of the nametables is read as the lower one. -/
def readData (p : Ppu) (cart : Cartridge) : UInt8 × Ppu :=
  let value := p.readBuffer
  let p := { p with bus := value }
  let p := if p.busy then
      { p with readBuffer := 0xFF, notes := p.notes ++ [s!"VRAM read at {p.place}"] }
    else
      let address := if p.vramAddress ≥ 0x3000 then p.vramAddress - 0x1000 else p.vramAddress
      { p with readBuffer := p.read cart address }
  (value, p.step)

/-- A CPU read of a register at the given clock. -/
def readRegister (p : Ppu) (cart : Cartridge) (address : UInt16) (clock : Nat) : UInt8 × Ppu :=
  match address.toNat % 8 with
  | 2 => p.readStatus clock
  | 7 => p.readData cart
  | _ => (p.bus, p)

/-- Stores a byte at the current address. Palette entry 0 stands for all eight backdrop entries; the other
seven ignore writes. -/
def storeData (p : Ppu) (cart : Cartridge) (value : UInt8) : Ppu × Cartridge :=
  if p.vramAddress < 0x3F00 then
    if p.busy then
      { p with notes := p.notes ++ [s!"VRAM write to {p.place}"] }.write cart p.vramAddress 0xFF
    else p.write cart p.vramAddress value
  else if p.vramAddress &&& 0x0F = 0 then
    ({ p with palette := setBackdrop p.palette ((value &&& colourMask) ||| backdropMark) }, cart)
  else if p.vramAddress &&& 3 ≠ 0 then
    ({ p with palette := p.palette.write (p.vramAddress.toNat % 32) (value &&& colourMask) }, cart)
  else (p, cart)

/-- A write to $2005: coarse and fine x, then coarse and fine y. -/
def writeScroll (p : Ppu) (value : UInt8) : Ppu :=
  let v := value.toUInt16
  if !p.toggle then
    { p with scroll := (v >>> 3) ||| (p.scroll &&& 0xFFE0), fineX := value &&& 7, toggle := true }
  else
    let y : UInt16 := ((v &&& 0xF8) <<< 2) ||| ((v &&& 7) <<< 12)
    { p with scroll := y ||| (p.scroll &&& 0x8C1F), toggle := false }

/-- A write to $2006: the high six bits, then the low byte, which moves the address. -/
def writeAddress (p : Ppu) (value : UInt8) : Ppu :=
  let v := value.toUInt16
  if !p.toggle then
    { p with scroll := ((v &&& 0x3F) <<< 8) ||| (p.scroll &&& 0x00FF), toggle := true }
  else
    let scroll := v ||| (p.scroll &&& 0xFF00)
    { p with scroll, vramAddress := scroll, toggle := false }

/-- A CPU write of a register. -/
def writeRegister (p : Ppu) (cart : Cartridge) (address : UInt16) (value : UInt8) :
    Ppu × Cartridge :=
  let p := { p with bus := value }
  match address.toNat % 8 with
  | 0 =>
    let table : UInt16 := (value &&& 3).toUInt16 <<< 10
    ({ p with ctrl := value, scroll := table ||| (p.scroll &&& 0xF3FF) }, cart)
  | 1 => ({ p with mask := value }, cart)
  | 3 => ({ p with oamAddress := value }, cart)
  | 4 =>
    ({ p with oam := p.oam.write p.oamAddress.toNat value, oamAddress := p.oamAddress + 1 }, cart)
  | 5 => (p.writeScroll value, cart)
  | 6 => (p.writeAddress value, cart)
  | 7 =>
    let (p, cart) := p.storeData cart value
    (p.step, cart)
  | _ => (p, cart)

/-- Sprite memory after a block transfer that starts at `start`: the block wraps around the memory, but the
first eight bytes are the block's own first eight or, where bit 2 of the start is set, its last four and
first four. -/
def transferred (start : UInt8) (block : Memory 0x100) : Memory 0x100 :=
  Vector.ofFn fun i =>
    if i.val < 8 then
      if start &&& 4 = 0 then block.read i.val
      else if i.val < 4 then block.read (252 + i.val) else block.read (i.val - 4)
    else block.read (i.val + 256 - start.toNat)

/-- Replaces sprite memory by a block, from the current sprite address on. -/
def transfer (p : Ppu) (block : Memory 0x100) : Ppu :=
  { p with oam := transferred p.oamAddress block }

end Famicom.Ppu
