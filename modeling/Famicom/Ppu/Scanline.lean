import Famicom.Ppu.Sprite

/-!
The 262 lines of a frame, as the picture unit passes through them.

    0-239     drawn, or only timed when the frame is skipped
    241       vertical blank begins, picture memory opens
    261       vertical blank and the sprite 0 hit end, picture memory closes

While something is shown, a line starts from the scroll register (all of it on line 0, then only its
horizontal part), and at its end the address moves down one row of pixels.
-/

namespace Famicom.Ppu

/-- Loads the address at the start of a visible line. -/
def startLine (p : Ppu) (line : Int) : Ppu :=
  if !p.enabled then p
  else if line = 0 then { p with vramAddress := p.scroll }
  else { p with vramAddress := (p.vramAddress &&& 0xFBE0) ||| (p.scroll &&& 0x041F) }

/-- The visible part of the line buffer. -/
def visible (p : Ppu) : Memory 256 := Vector.ofFn fun i => p.line.read (lineMargin + i.val)

/-- Runs a visible line. -/
def runLine (p : Ppu) (board : Option Board) (cart : Cartridge) (line : Nat) (draw : Bool)
    (clock : Nat) : Ppu × Option Board :=
  let p := p.startLine line
  if draw then
    let (p, board) := p.drawBackground board cart
    let (p, board) := if p.drawSprites then p.drawSpritesOf board cart line clock
      else (p.estimateHit cart line clock, board)
    ({ p with frame := p.frame.setIfInBounds line p.visible }, board)
  else (p.estimateHit cart line clock, board)

/-- The start of a line. One above the picture moves the address like a visible one and shows nothing. -/
def startScanline (p : Ppu) (board : Option Board) (cart : Cartridge) (line : Int) (draw : Bool)
    (clock : Nat) : Ppu × Option Board :=
  let p := { p with scanline := line }
  if line < 0 then (({ p with status := p.status &&& 0xDF } : Ppu).startLine line, board)
  else if line < 240 then
    { p with status := p.status &&& 0xDF }.runLine board cart line.toNat draw clock
  else if line = 241 then ({ p with status := p.status ||| 0x80, unlocked := true }, board)
  else if line = 261 then
    ({ p with status := p.status &&& 0x7F, hit := false, hitAt := none, unlocked := false }, board)
  else (p, board)

/-- The address one row of pixels further down: fine y, then coarse y, which wraps after row 29 into the
other nametable and after row 31 into the same one. -/
def nextRow (v : UInt16) : UInt16 :=
  if v >>> 12 ≠ 7 then v + 0x1000
  else
    let v := v &&& 0x8FFF
    let row := (v >>> 5) &&& 0x1F
    if row = 29 then (v &&& 0xFC1F) ^^^ 0x0800
    else if row = 31 then v &&& 0xFC1F
    else v + 0x20

/-- The end of a line. -/
def finishScanline (p : Ppu) (line : Int) : Ppu :=
  if line ≥ 240 || !p.enabled then p else { p with vramAddress := nextRow p.vramAddress }

end Famicom.Ppu
