import Famicom.Board.Signal

/-!
RAMBO-1: a relative of the MMC3 with more bank registers and a counter that starts over by itself.

Every rendered line either takes one off the counter or, at zero, interrupts and reloads it from the latch.
-/

namespace Famicom

/-- Registers of the RAMBO-1. -/
structure Rambo1 where
  command : UInt8 := 0
  chrBase : UInt16 := 0
  counter : Int := 0
  latch : UInt8 := 0
  enabled : Bool := false
  /-- The next write reloads the counter. -/
  reload : Bool := false
  deriving DecidableEq, Repr, Inhabited

namespace Rambo1

/-- Power-on: the last 8KB bank in every window. -/
def init : Rambo1 × List Signal :=
  ({}, [.prg 8 0x8000 lastBank, .prg 8 0xA000 lastBank, .prg 8 0xC000 lastBank,
    .prg 8 0xE000 lastBank])

/-- What a write to the bank register asks for under the current command. -/
def bankSignals (s : Rambo1) (value : UInt8) : List Signal :=
  let base := s.chrBase
  let swap := s.command &&& 0x40 != 0
  let v := bank value
  match (s.command &&& 0x0F).toNat with
  | 0 => [.chr 1 base v, .chr 1 (0x0400 ^^^ base) v]
  | 1 => [.chr 1 (0x0800 ^^^ base) v, .chr 1 (0x0C00 ^^^ base) v]
  | 2 => [.chr 1 (0x1000 ^^^ base) v]
  | 3 => [.chr 1 (0x1400 ^^^ base) v]
  | 4 => [.chr 1 (0x1800 ^^^ base) v]
  | 5 => [.chr 1 (0x1C00 ^^^ base) v]
  | 6 => [.prg 8 (if swap then 0xA000 else 0x8000) v]
  | 7 => [.prg 8 (if swap then 0xC000 else 0xA000) v]
  | 8 => [.chr 1 0x0400 v]
  | 9 => [.chr 1 0x0C00 v]
  | 15 => [.prg 8 (if swap then 0x8000 else 0xC000) v]
  | other => [.log s!"mapper 64: unknown command #{other}"]

/-- A write to one of the eight registers, before a due reload. -/
def writeRegister (s : Rambo1) (address : UInt16) (value : UInt8) : Rambo1 × List Signal :=
  let p := address &&& 0xE001
  if p = 0x8000 then
    ({ s with command := value, chrBase := if value &&& 0x80 != 0 then 0x1000 else 0 }, [])
  else if p = 0x8001 then (s, s.bankSignals value)
  else if p = 0xA000 then (s, [.horizontalIf (value &&& 1 != 0)])
  else if p = 0xC000 then ({ s with latch := value }, [])
  else if p = 0xC001 then ({ s with reload := true }, [])
  else if p = 0xE000 then ({ s with enabled := false }, [])
  else if p = 0xE001 then ({ s with enabled := true }, [])
  else (s, [])

/-- Reloads the counter if a reload is due. -/
def settle (s : Rambo1) : Rambo1 := if s.reload then { s with counter := bank s.latch } else s

/-- One write. -/
def write (s : Rambo1) (address : UInt16) (value : UInt8) : Rambo1 × List Signal :=
  let (s, signals) := s.writeRegister address value
  (s.settle, signals)

/-- The end of a line. -/
def hblank (s : Rambo1) (view : View) (vblank : Bool) : Rambo1 × List Signal :=
  if vblank then (s, [])
  else
    let s := { s with reload := false }
    if !view.rendering then (s, [])
    else if s.counter = 0 then
      ({ s with counter := bank s.latch, reload := true }, if s.enabled then [.irq] else [])
    else ({ s with counter := s.counter - 1 }, [])

end Rambo1

end Famicom
