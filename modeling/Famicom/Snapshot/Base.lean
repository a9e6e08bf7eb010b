import Famicom.Machine.Bus

/-!
The block of the processor and the picture unit.

    0000  a x y p s pc(2)      1909  palette, colours only
    0007  control, mask        1929  the four nametable windows
    0009  RAM                  192D  address(2), sprite address, fine x
    0809  sprite memory
    0909  nametables

Restoring goes through the picture unit's registers, so that everything which follows from them is
brought along; the full address is put in place at the end. A body that is too short counts as continued by
zeros.
-/

namespace Famicom.Snapshot

/-- A word's two bytes, high byte first. -/
def wordBytes (w : UInt16) : List UInt8 := [(w >>> 8).toUInt8, w.toUInt8]

/-- The word at an offset of a body. -/
def wordAt (body : List UInt8) (offset : Nat) : UInt16 :=
  (body.getD offset 0).toUInt16 <<< 8 ||| (body.getD (offset + 1) 0).toUInt16

/-- Where RAM lies in the block. -/
def ramOffset : Nat := 0x0009

/-- Where sprite memory lies in the block. -/
def oamOffset : Nat := 0x0809

/-- Where the nametables lie in the block. -/
def nametableOffset : Nat := 0x0909

/-- Where the palette lies in the block. -/
def paletteOffset : Nat := 0x1909

/-- Where the nametable windows lie in the block. -/
def windowOffset : Nat := 0x1929

/-- Where the picture address lies in the block. -/
def addressOffset : Nat := 0x192D

/-- What a nametable window is remembered by: its internal nametable, or its own number. -/
def windowByte (pages : PageTable) (window : Nat) : UInt8 :=
  let page := pages.page (8 + window)
  if page.region = .nametable then UInt8.ofNat (page.offset / 0x400) else UInt8.ofNat window

/-- The block's body. -/
def baseBody (m : Machine) : List UInt8 :=
  [m.cpu.a, m.cpu.x, m.cpu.y, m.cpu.p, m.cpu.s] ++ wordBytes m.cpu.pc ++
    [m.ppu.ctrl, m.ppu.mask] ++ m.cpu.ram.toList ++ m.ppu.oam.toList ++
    m.ppu.nametables.toList ++ m.ppu.palette.toList.map (· &&& colourMask) ++
    (List.range 4).map (windowByte m.ppu.pages) ++ wordBytes m.ppu.vramAddress ++
    [m.ppu.oamAddress, m.ppu.fineX]

/-- The palette of a body, with the backdrop entries marked again. -/
def paletteOf (body : List UInt8) : Memory 32 :=
  let palette := Memory.ofList 32 (body.drop paletteOffset)
  Ppu.setBackdrop palette (palette.read 0 ||| backdropMark)

/-- Picture windows with the nametable windows of a body. -/
def windowsOf (pages : PageTable) (body : List UInt8) : PageTable :=
  let table (i : Nat) : Nat := (body.getD (windowOffset + i) 0).toNat
  pages.mirror (table 0) (table 1) (table 2) (table 3)

/-- The processor's part of a body. -/
def restoreCpu (c : Cpu) (body : List UInt8) : Cpu :=
  { c with
    a := body.getD 0 0, x := body.getD 1 0, y := body.getD 2 0
    p := body.getD 3 0, s := body.getD 4 0, pc := wordAt body 5
    ram := Memory.ofList 0x800 (body.drop ramOffset) }

/-- The picture unit's part of a body, but for what its registers bring along. -/
def restorePpu (p : Ppu) (body : List UInt8) : Ppu :=
  { p with
    ctrl := body.getD 7 0, mask := body.getD 8 0
    oam := Memory.ofList 0x100 (body.drop oamOffset)
    nametables := Memory.ofList 0x1000 (body.drop nametableOffset)
    palette := paletteOf body
    pages := windowsOf p.pages body
    oamAddress := body.getD (addressOffset + 2) 0
    fineX := body.getD (addressOffset + 3) 0
    toggle := false, hit := false }

/-- Takes a body over. -/
def restoreBase (m : Machine) (body : List UInt8) : Machine :=
  let vramAddress := wordAt body addressOffset
  let m := { m with cpu := restoreCpu m.cpu body, ppu := restorePpu m.ppu body }
  let m := (m.write 0x2000 (body.getD 7 0)).write 0x2001 (body.getD 8 0)
  let m := (m.write 0x2006 (vramAddress >>> 8).toUInt8).write 0x2006 vramAddress.toUInt8
  { m with ppu.vramAddress := vramAddress }

end Famicom.Snapshot
