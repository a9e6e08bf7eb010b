import Famicom.Ppu

/-!
The background of one line: 33 tiles, of which the first may begin left of the screen. They are fetched one
after the other by a fetcher that only ever moves on:

    tile number       the next cell of the nametable row; past column 31 the neighbour's first
    attribute byte    a new one at every fourth column
    its two bits      the other pair at every second column

Pattern colour 0 shows the backdrop whatever the attribute, since every fourth palette entry is the
backdrop's.
-/

namespace Famicom

/-- The two-bit colour of a pixel, 0 being the leftmost, in a row of a pattern. -/
def patternPixel (lo hi : UInt8) (px : Nat) : UInt8 :=
  let shift := UInt8.ofNat (7 - px)
  ((hi >>> shift) &&& 1) * 2 + ((lo >>> shift) &&& 1)

/-- The fetcher on its way along a line. -/
structure Fetcher where
  /-- The first cell of the row of nametable cells that the line crosses. -/
  row : UInt16
  /-- The first attribute byte of that row. -/
  attributeRow : UInt16
  /-- The column of the next tile. -/
  column : UInt16
  /-- Where the number of the next tile lies. -/
  tile : UInt16
  /-- Where the next attribute byte lies. -/
  nextAttributes : UInt16
  /-- The attribute byte of the next tile and its neighbours. -/
  attributes : UInt8
  /-- Which two bits of it are those of the next tile. -/
  shift : UInt8

namespace Fetcher

/-- The group of four colours that the next tile is drawn in. -/
def group (f : Fetcher) : UInt8 := (f.attributes >>> f.shift) &&& 3

/-- Past the last column, on to the same row of the horizontal neighbour. -/
def cross (f : Fetcher) : Fetcher :=
  if f.column = 32 then
    { f with
      column := 0
      row := f.row ^^^ 0x400
      attributeRow := f.attributeRow ^^^ 0x400
      tile := f.row ^^^ 0x400
      nextAttributes := f.attributeRow ^^^ 0x400 }
  else f

end Fetcher

namespace Ppu

/-- The backdrop, marked transparent. -/
def backdrop (p : Ppu) : UInt8 := p.palette.read 0 ||| backdropMark

/-! ### Fetching -/

/-- The fetcher at the start of a line. -/
def fetcher (p : Ppu) (cart : Cartridge) : Fetcher :=
  let v := p.vramAddress
  let cells : UInt16 := v &&& 0x0FE0
  let column : UInt16 := v &&& 0x1F
  let tileRow : UInt16 := (v >>> 5) &&& 0x1F
  let row := 0x2000 + cells
  let table : UInt16 := row &&& 0x2C00
  let inTable : UInt16 := (tileRow &&& 0x1C) <<< 1
  let attributeRow := table + 0x3C0 + inTable
  let first := attributeRow + (column >>> 2 : UInt16)
  let pair : UInt16 := (tileRow &&& 2) <<< 1
  { row, attributeRow, column
    tile := row + column
    nextAttributes := first + 1
    attributes := p.read cart first
    shift := ((column &&& 2 : UInt16) + pair).toUInt8 }

/-- Reads the next attribute byte. -/
def readAttribute (p : Ppu) (cart : Cartridge) (f : Fetcher) : Fetcher :=
  { f with attributes := p.read cart f.nextAttributes, nextAttributes := f.nextAttributes + 1 }

/-- The fetcher one tile further. -/
def advance (p : Ppu) (cart : Cartridge) (f : Fetcher) : Fetcher :=
  let f := { f with column := f.column + 1, tile := f.tile + 1 }
  if f.column &&& 1 ≠ 0 then f
  else
    let f := if f.column &&& 3 = 0 then p.readAttribute cart f.cross else f
    { f with shift := f.shift ^^^ 2 }

/-! ### Drawing -/

/-- Puts the eight pixels of a pattern row into a line from a position on, in a group of four colours. -/
def putTile (line : Memory lineSize) (palette : Memory 32) (x : Nat) (lo hi group : UInt8) :
    Memory lineSize :=
  (List.range 8).foldl (fun l px =>
    l.write (x + px) (palette.read (group * 4 + patternPixel lo hi px).toNat)) line

/-- Where the row of a tile's pattern that falls on the line lies. -/
def backgroundRowAddress (p : Ppu) (tile : UInt8) : UInt16 :=
  let fineY : UInt16 := (p.vramAddress >>> 12) &&& 7
  p.backgroundBase + 16 * tile.toUInt16 + fineY

/-- Draws the tile with the given number as tile `k` of the line, in a group of four colours. -/
def paintTile (p : Ppu) (board : Option Board) (cart : Cartridge) (k : Nat) (tile group : UInt8) :
    Ppu × Option Board :=
  let pattern := p.backgroundRowAddress tile
  let lo := p.read cart pattern
  let hi := p.read cart (pattern + 8)
  let (p, board) := p.drawn board cart p.backgroundBase tile
  let x := lineMargin - p.fineX.toNat + 8 * k
  ({ p with line := putTile p.line p.palette x lo hi group }, board)

/-- Fetches and draws tile `k`. -/
def fetchTile (cart : Cartridge) (s : Ppu × Option Board × Fetcher) (k : Nat) :
    Ppu × Option Board × Fetcher :=
  let (p, board, f) := s
  let (p, board) := p.paintTile board cart k (p.read cart f.tile) f.group
  (p, board, p.advance cart f)

/-- Fills the leftmost eight columns of the screen. -/
def fillLeft (p : Ppu) (value : UInt8) : Ppu :=
  { p with line := (List.range 8).foldl (fun l i => l.write (lineMargin + i) value) p.line }

/-- Draws the background of the current line; hidden, it is all backdrop. -/
def drawBackground (p : Ppu) (board : Option Board) (cart : Cartridge) : Ppu × Option Board :=
  if !p.backgroundOn then ({ p with line := Memory.filled lineSize p.backdrop }, board)
  else
    let (p, board, _) := (List.range 33).foldl (fetchTile cart) (p, board, p.fetcher cart)
    (if p.backgroundLeft then p else p.fillLeft p.backdrop, board)

end Ppu

end Famicom
