import Famicom.Board
import Famicom.Cartridge
import Famicom.Xorshift

/-!
The picture unit: its registers, the windows of its address space, nametable RAM, sprite memory, the palette,
and the picture drawn so far.

    vramAddress, scroll   yyy NN YYYYY XXXXX      fine y, nametable, coarse y, coarse x
    palette entry   b 0 cccccc              b marks the backdrop
    line pixel      b s cccccc              b transparent background, s drawn by a sprite

A line is drawn in one go. The buffer reaches eight pixels past both edges of the screen, so a background
that starts seven pixels early and a sprite that hangs over the right edge are drawn like any other.
-/

namespace Famicom

/-- Pixels in a line of the picture. -/
def screenWidth : Nat := 256

/-- Lines in the picture. -/
def screenHeight : Nat := 240

/-- Marks a pixel or palette entry as backdrop. -/
def backdropMark : UInt8 := 0x80

/-- Marks a pixel as drawn by a sprite. -/
def spriteMark : UInt8 := 0x40

/-- The colour in a marked pixel. -/
def colourMask : UInt8 := 0x3F

/-- Pixels that the line buffer holds on each side of the screen. -/
def lineMargin : Nat := 8

/-- Pixels in the line buffer. -/
abbrev lineSize : Nat := 272

/-- The picture: 240 rows of 256 pixels. -/
abbrev Frame := Vector (Memory 256) 240

/-- The picture unit. -/
structure Ppu where
  /-- $2000: NMI, sprite size, pattern tables, address increment, nametable. -/
  ctrl : UInt8 := 0
  /-- $2001: what is shown. -/
  mask : UInt8 := 0
  /-- $2002: vertical blank and sprite overflow. -/
  status : UInt8 := 0
  oamAddress : UInt8 := 0
  /-- The byte last put on the register bus. -/
  bus : UInt8 := 0
  /-- What the next read of $2007 returns. -/
  readBuffer : UInt8 := 0
  vramAddress : UInt16 := 0
  /-- The address that a frame or line starts from. -/
  scroll : UInt16 := 0
  fineX : UInt8 := 0
  /-- The next write to $2005 or $2006 is the second of its pair. -/
  toggle : Bool := false
  /-- Sprite 0 hit the background in this frame. -/
  hit : Bool := false
  /-- From which CPU clock on the hit shows. -/
  hitAt : Option Nat := none
  /-- The CPU may use picture memory although something is shown. -/
  unlocked : Bool := true
  drawSprites : Bool := true
  pages : PageTable := PageTable.blank
  nametables : Memory 0x1000 := Memory.zero 0x1000
  oam : Memory 0x100 := Memory.zero 0x100
  palette : Memory 32 := Memory.zero 32
  /-- The line being run. -/
  scanline : Int := 0
  /-- Remarks not yet in the log, in order. -/
  notes : List String := []
  line : Memory lineSize := Memory.zero lineSize
  frame : Frame := Vector.replicate 240 (Memory.zero 256)
  deriving Inhabited

namespace Ppu

/-- Gives all eight backdrop entries of a palette one value. -/
def setBackdrop (palette : Memory 32) (value : UInt8) : Memory 32 :=
  [0, 4, 8, 12, 16, 20, 24, 28].foldl (fun p i => p.write i value) palette

/-- Registers after a reset: both layers shown, the address at the first nametable. -/
def resetRegisters (p : Ppu) : Ppu :=
  { p with
    ctrl := 0, mask := 0x18, status := 0, toggle := false, vramAddress := 0x2000, scroll := 0x2000
    oamAddress := 0, fineX := 0, bus := 0, unlocked := true }

/-- A picture unit at power-on. -/
def powerOn : Ppu :=
  let p : Ppu := {}
  { p with
    pages := p.pages.mirror 0 0 1 1
    palette := setBackdrop p.palette backdropMark }.resetRegisters

/-- A reset; a hard one fills sprite memory with garbage. -/
def reset (p : Ppu) (hard : Bool) (prng : Xorshift) : Ppu × Xorshift :=
  if hard then
    let (bytes, prng) := prng.bytes 0x100
    ({ p with oam := Memory.ofList 0x100 bytes }.resetRegisters, prng)
  else (p.resetRegisters, prng)

/-! ### What the control bits say -/

/-- The background is shown. -/
def backgroundOn (p : Ppu) : Bool := p.mask &&& 0x08 != 0

/-- Sprites are shown. -/
def spritesOn (p : Ppu) : Bool := p.mask &&& 0x10 != 0

/-- Something is shown. -/
def enabled (p : Ppu) : Bool := p.backgroundOn || p.spritesOn

/-- The background is shown in the leftmost eight columns too. -/
def backgroundLeft (p : Ppu) : Bool := p.mask &&& 0x02 != 0

/-- Sprites are shown in the leftmost eight columns too. -/
def spritesLeft (p : Ppu) : Bool := p.mask &&& 0x04 != 0

/-- Vertical blank interrupts the CPU. -/
def nmiEnabled (p : Ppu) : Bool := p.ctrl &&& 0x80 != 0

/-- Vertical blank is on. -/
def inVblank (p : Ppu) : Bool := p.status &&& 0x80 != 0

/-- Lines that a sprite covers. -/
def spriteHeight (p : Ppu) : Nat := if p.ctrl &&& 0x20 != 0 then 16 else 8

/-- Where background patterns lie. -/
def backgroundBase (p : Ppu) : UInt16 := if p.ctrl &&& 0x10 != 0 then 0x1000 else 0

/-- Where the patterns of small sprites lie. -/
def spriteBase (p : Ppu) : UInt16 := if p.ctrl &&& 0x08 != 0 then 0x1000 else 0

/-- How far the address moves after an access to $2007. -/
def increment (p : Ppu) : UInt16 := if p.ctrl &&& 0x04 != 0 then 32 else 1

/-! ### Picture memory -/

/-- A byte of picture memory; addresses wrap at 16KB. -/
def read (p : Ppu) (cart : Cartridge) (address : UInt16) : UInt8 :=
  let page := p.pages.page (address.toNat / 0x400)
  let index := page.offset + address.toNat % 0x400
  match page.region with
  | .nametable => p.nametables.read index
  | .ram => 0
  | region => cart.read region index

/-- Stores a byte of picture memory. -/
def write (p : Ppu) (cart : Cartridge) (address : UInt16) (value : UInt8) : Ppu × Cartridge :=
  let page := p.pages.page (address.toNat / 0x400)
  let index := page.offset + address.toNat % 0x400
  match page.region with
  | .nametable => ({ p with nametables := p.nametables.write index value }, cart)
  | region => (p, cart.write region index value)

/-- Tells the board which tile was drawn from the pattern window at `base`, and moves that window if the
board says so. -/
def drawn (p : Ppu) (board : Option Board) (cart : Cartridge) (base : UInt16) (tile : UInt8) :
    Ppu × Option Board :=
  match board with
  | none => (p, none)
  | some b =>
    let (b, chosen) := b.drawn base tile
    match chosen with
    | none => (p, some b)
    | some bank => ({ p with pages := p.pages.mapChr cart.chr.size 4 base bank }, some b)

/-! ### The picture -/

/-- The colour at a position, 0 outside the picture. Columns past the last run on into the next line. -/
def pixel (p : Ppu) (x y : Nat) : UInt8 :=
  let index := y * screenWidth + x
  match p.frame[index / screenWidth]? with
  | some row => row.read (index % screenWidth) &&& colourMask
  | none => 0

/-- The colours of a line; lines past the last show the last. -/
def row (p : Ppu) (y : Nat) : List UInt8 :=
  match p.frame[min y (screenHeight - 1)]? with
  | some row => row.toList.map (· &&& colourMask)
  | none => []

/-- All colours, line by line. -/
def image (p : Ppu) : List UInt8 :=
  p.frame.toList.flatMap fun row => row.toList.map (· &&& colourMask)

end Ppu

end Famicom
