import Famicom.AddressRange
import Famicom.Page

/-!
How a cartridge board talks to the console. A board sees a few facts (`View`) and the accesses that are
routed to it; it answers with a list of requests (`Signal`) that the console carries out in order. A board
never reads a window or a memory back, so its behaviour is a function of its own registers.

    access ──▶ board registers ──▶ registers', [prg 8 $8000 3, irq, …] ──▶ console
-/

namespace Famicom

/-- What a board asks of the console. -/
inductive Signal where
  /-- Show a bank of `kb` kilobytes of program ROM at a CPU address. -/
  | prg (kb : Nat) (address : UInt16) (bank : Int)
  /-- Show a bank of `kb` kilobytes of pattern ROM at a picture address. -/
  | chr (kb : Nat) (address : UInt16) (bank : Int)
  /-- Point the four nametable windows at internal nametables. -/
  | mirror (a b c d : Nat)
  /-- Point one nametable window at a 1KB page of pattern ROM, or at RAM for values from E0 up. -/
  | nametable (window : Nat) (value : UInt8)
  | irq
  | log (message : String)
  deriving DecidableEq, Repr, Inhabited

/-- The bank number of the last bank, whatever its size. -/
def lastBank : Int := -1

/-- A written value as a bank number. -/
def bank (value : UInt8) : Int := value.toNat

namespace Signal

/-- Two nametables side by side, repeated downwards. -/
def vertical : Signal := .mirror 0 1 0 1

/-- Two nametables on top of each other, repeated sideways. -/
def horizontal : Signal := .mirror 0 0 1 1

/-- One nametable everywhere. -/
def single (table : Nat) : Signal := .mirror table table table table

/-- Four nametables. -/
def fourScreen : Signal := .mirror 0 1 2 3

/-- Horizontal when the bit is set, else vertical. -/
def horizontalIf (bit : Bool) : Signal := if bit then horizontal else vertical

end Signal

/-- The facts a board can see. -/
structure View where
  /-- Bytes of program ROM. -/
  prgSize : Nat := 0
  /-- The header's four-screen mark. -/
  fourScreen : Bool := false
  /-- The picture unit shows background or sprites. -/
  rendering : Bool := false
  /-- The scanline being run. -/
  scanline : Int := 0
  deriving DecidableEq, Repr, Inhabited

namespace View

/-- Number of 8KB program banks. -/
def prg8 (v : View) : Int := ((v.prgSize / 0x2000 : Nat) : Int)

/-- Number of 16KB program banks. -/
def prg16 (v : View) : Nat := v.prgSize / 0x4000

end View

/-- The program ROM's address space. -/
def romRange : List AddressRange := [(0x8000, 0xFFFF)]

end Famicom
