import Famicom.Ppu.Background

/-!
The sprites of one line. Of the sprites that cover it, the first eight in memory are drawn, the first on top;
a ninth sets the overflow flag.

    entry   y - 1, tile, attributes (flip y, flip x, behind, palette), x

When sprite 0 has a solid pixel over a solid background pixel, the hit becomes visible to the CPU once the
beam has drawn it, three pixels per cycle. A line that is not drawn estimates the hit from the sprite alone.
-/

namespace Famicom

/-- One entry of sprite memory. -/
structure Sprite where
  /-- The first line covered. -/
  top : Nat
  tile : UInt8
  attributes : UInt8
  x : Nat
  deriving DecidableEq, Repr, Inhabited

namespace Sprite

/-- Drawn upside down. -/
def flipY (s : Sprite) : Bool := s.attributes &&& 0x80 != 0

/-- Drawn left to right reversed. -/
def flipX (s : Sprite) : Bool := s.attributes &&& 0x40 != 0

/-- Drawn behind the background. -/
def behind (s : Sprite) : Bool := s.attributes &&& 0x20 != 0

/-- The first entry of the sprite's palette. -/
def colours (s : Sprite) : Nat := 16 + 4 * (s.attributes &&& 3).toNat

/-- The two-bit colour of a pixel in a row of the sprite's pattern. -/
def pixel (s : Sprite) (lo hi : UInt8) (px : Nat) : UInt8 :=
  patternPixel lo hi (if s.flipX then 7 - px else px)

end Sprite

namespace Ppu

/-- An entry of sprite memory. -/
def sprite (p : Ppu) (index : Nat) : Sprite where
  top := (p.oam.read (4 * index)).toNat + 1
  tile := p.oam.read (4 * index + 1)
  attributes := p.oam.read (4 * index + 2)
  x := (p.oam.read (4 * index + 3)).toNat

/-- Whether a sprite covers a line; one that begins at `limit` or below covers none. -/
def covers (p : Ppu) (s : Sprite) (line limit : Nat) : Bool :=
  s.top ≤ line && line < s.top + p.spriteHeight && s.top < limit

/-- Where the row of a sprite's pattern that falls on a line lies. A tall sprite is two tiles, eight bytes
apart from row to row. -/
def spriteRowAddress (p : Ppu) (s : Sprite) (line : Nat) : UInt16 :=
  let tall := p.spriteHeight = 16
  let base : UInt16 := if tall then ((s.tile &&& 1).toUInt16 <<< 12) + ((s.tile &&& 0xFE).toUInt16 <<< 4)
    else (s.tile.toUInt16 <<< 4) + p.spriteBase
  let row := line - s.top
  let offset := UInt16.ofNat (if row > 7 then row + 8 else row)
  if s.flipY then base + (if tall then 23 else 7) - offset else base + offset

/-- The two bytes of the row of a sprite's pattern that falls on a line. -/
def spriteRow (p : Ppu) (cart : Cartridge) (s : Sprite) (line : Nat) : UInt8 × UInt8 :=
  let address := p.spriteRowAddress s line
  (p.read cart address, p.read cart (address + 8))

/-- Records a hit at a column, unless one is recorded already. -/
def recordHit (p : Ppu) (column clock : Nat) : Ppu :=
  if p.hit then p else { p with hit := true, hitAt := some (clock + column / 3) }

/-- What a solid sprite pixel makes of the pixel under it. -/
def blend (s : Sprite) (under colour : UInt8) : UInt8 :=
  if s.behind then
    spriteMark ||| (if under &&& backdropMark != 0 then colour else under)
  else if under &&& spriteMark = 0 then spriteMark ||| colour
  else under

/-- Draws pixel `px` of a sprite's row. -/
def drawSpritePixel (palette : Memory 32) (s : Sprite) (lo hi : UInt8) (line : Memory lineSize)
    (px : Nat) : Memory lineSize :=
  let colour := s.pixel lo hi px
  if colour = 0 then line
  else
    let cell := lineMargin + s.x + px
    line.write cell (blend s (line.read cell) (palette.read (s.colours + colour.toNat)))

/-- The first column of a sprite's row at which it and the line under it are solid. -/
def hitColumn? (line : Memory lineSize) (s : Sprite) (lo hi : UInt8) : Option Nat :=
  ((List.range 8).find? fun px =>
    s.pixel lo hi px != 0 && line.read (lineMargin + s.x + px) &&& backdropMark == 0).map (s.x + ·)

/-- Draws one sprite on a line and, for sprite 0, records its hit. -/
def drawSprite (cart : Cartridge) (line clock : Nat) (state : Ppu × Option Board) (index : Nat) :
    Ppu × Option Board :=
  let (p, board) := state
  let s := p.sprite index
  let (p, board) := p.drawn board cart p.spriteBase s.tile
  let (lo, hi) := p.spriteRow cart s line
  let hit := if index = 0 && !p.hit then hitColumn? p.line s lo hi else none
  let p := { p with line := (List.range 8).foldl (drawSpritePixel p.palette s lo hi) p.line }
  match hit with
  | some column => (p.recordHit column clock, board)
  | none => (p, board)

/-- The sprites that cover a line, in memory order. -/
def spritesOnLine (p : Ppu) (line : Nat) : List Nat :=
  (List.range 64).filter fun i => p.covers (p.sprite i) line 240

/-- The leftmost eight columns of the screen. -/
def leftColumns (p : Ppu) : List UInt8 := (List.range 8).map fun i => p.line.read (lineMargin + i)

/-- Draws the sprites of a line over its background. -/
def drawSpritesOf (p : Ppu) (board : Option Board) (cart : Cartridge) (line clock : Nat) :
    Ppu × Option Board :=
  if !p.spritesOn then (p, board)
  else
    let saved := p.leftColumns
    let covering := p.spritesOnLine line
    let p := if covering.length > 8 then { p with status := p.status ||| 0x20 } else p
    let (p, board) := (covering.take 8).foldl (drawSprite cart line clock) (p, board)
    (if p.spritesLeft then p else { p with line := p.line.writeList lineMargin saved }, board)

/-- Estimates sprite 0's hit on a line that is not drawn: its first solid pixel counts, whatever lies
under it. -/
def estimateHit (p : Ppu) (cart : Cartridge) (line clock : Nat) : Ppu :=
  if !p.spritesOn || p.hit then p
  else
    let s := p.sprite 0
    if !p.covers s line 241 then p
    else
      let (lo, hi) := p.spriteRow cart s line
      match (List.range 8).find? fun px => s.pixel lo hi px != 0 with
      | some px => p.recordHit (s.x + px) clock
      | none => p

end Ppu

end Famicom
