import Famicom.Machine.Execute
import Famicom.Ppu.Scanline

/-!
Frames. A line of the picture takes 113 2/3 processor cycles; what a slice ran over is taken from the next
line. Vertical blank begins on line 241, with a short slice before its interrupt.

    line:   picture unit starts ─▶ [241: slice, NMI] ─▶ board ─▶ slice ─▶ picture unit ends
-/

namespace Famicom.Machine

/-- Lines of a frame. -/
def linesPerFrame : Int := 262

/-- The line on which vertical blank begins. -/
def vblankLine : Int := 241

/-- Processor cycles from the start of vertical blank to its interrupt. -/
def nmiDelay : Int := 7

/-- Processor cycles per line: 1364 ticks of the master clock, twelve to a cycle. -/
def cyclesPerLine : Float32 := 1364 / 12

/-- The whole part of a number of cycles. -/
def wholeCycles (x : Float32) : Int :=
  if x < 0 then -((-x).toUInt32.toNat : Int) else x.toUInt32.toNat

/-- Lets the frame timer see elapsed cycles. -/
def elapseTimer (m : Machine) (cycles : Int) : Machine :=
  let (asks, timer) := m.timer.elapse cycles
  let m := { m with timer }
  if asks then { m with cpu := m.cpu.irq m.cart } else m

/-- Runs a slice on the line's account. -/
def runSlice (m : Machine) (slice : Int) : Machine :=
  let (elapsed, m) := m.execute slice
  { m with lineCycles := m.lineCycles - Float32.ofInt elapsed }.elapseTimer elapsed

/-- The start of vertical blank. -/
def beginVblank (m : Machine) : Machine :=
  let m := m.runSlice nmiDelay
  if m.ppu.nmiEnabled then { m with cpu := m.cpu.nmi m.cart } else m

/-- Runs one line; `vblank` says whether vertical blank began in this frame. -/
def runLine (m : Machine) (draw vblank : Bool) : Machine :=
  let (ppu, board) := m.ppu.startScanline m.board m.cart m.scanline draw m.cpu.clock
  let m := { m with ppu, board }.drainNotes
  let m := if m.scanline = vblankLine then m.beginVblank else m
  let m := m.boardHblank vblank
  let m := { m with lineCycles := m.lineCycles + cyclesPerLine }
  let m := m.runSlice (wholeCycles m.lineCycles)
  { m with ppu := m.ppu.finishScanline m.scanline, scanline := m.scanline + 1 }

/-- Runs the next `count` lines. -/
def runLines (m : Machine) (draw vblank : Bool) : Nat → Machine
  | 0 => m
  | count + 1 =>
    let vblank := vblank || m.scanline = vblankLine
    runLines (m.runLine draw vblank) draw vblank count

/-- Runs to the end of the frame. Without a cartridge, or paused, nothing happens. -/
def runFrame (m : Machine) (draw : Bool) : Machine :=
  if !m.hasCartridge || m.paused then m else
    let m := m.runLines draw false (linesPerFrame - m.scanline).toNat
    { m with scanline := 0, frames := m.frames + 1 }

/-- The next `count` sound samples. -/
def samples (m : Machine) (count : Nat) : List Int × Machine :=
  let (samples, sound, cpu) := m.sound.render m.cpu m.cart count
  (samples, { m with sound, cpu })

end Famicom.Machine
