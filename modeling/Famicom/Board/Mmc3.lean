import Famicom.Board.Signal

/-!
MMC3: eight bank registers behind a command register, and a counter clocked once per rendered line.

    $8000 command   $8001 bank   $A000 wiring   $C000 latch   $C001 reload   $E000 off   $E001 on

The counter runs from its latch down past zero and then rests until a write reloads it: an expired line
with interrupts on asks for a reload, which the next write of any register carries out.
-/

namespace Famicom

/-- Registers of the MMC3. -/
structure Mmc3 where
  command : UInt8 := 0
  /-- Pattern windows are swapped by this address bit. -/
  chrBase : UInt16 := 0
  /-- Command bit 6 as last acted upon: which of $8000 and $C000 is fixed. -/
  prgSwap : UInt8 := 0
  counter : Int := 0
  latch : UInt8 := 0
  enabled : Bool := false
  /-- The next write reloads the counter. -/
  reload : Bool := false
  deriving DecidableEq, Repr, Inhabited

namespace Mmc3

/-- The pattern window swap in a command. -/
def chrBaseOf (command : UInt8) : UInt16 := if command &&& 0x80 != 0 then 0x1000 else 0

/-- What a write to the bank register asks for under the current command. -/
def bankSignals (s : Mmc3) (value : UInt8) : List Signal :=
  let base := s.chrBase
  let pair := bank (value &&& 0xFE)
  match (s.command &&& 7).toNat with
  | 0 => [.chr 1 base pair, .chr 1 (base ^^^ 0x0400) (pair + 1)]
  | 1 => [.chr 1 (base ^^^ 0x0800) pair, .chr 1 (base ^^^ 0x0C00) (pair + 1)]
  | 2 => [.chr 1 (base ^^^ 0x1000) (bank value)]
  | 3 => [.chr 1 (base ^^^ 0x1400) (bank value)]
  | 4 => [.chr 1 (base ^^^ 0x1800) (bank value)]
  | 5 => [.chr 1 (base ^^^ 0x1C00) (bank value)]
  | 6 => [.prg 8 (if s.command &&& 0x40 != 0 then 0xC000 else 0x8000) (bank value)]
  | _ => [.prg 8 0xA000 (bank value)]

/-- A write to the command register: a changed swap bit moves the second-last bank to the other window. -/
def setCommand (s : Mmc3) (view : View) (value : UInt8) : Mmc3 × List Signal :=
  let s := { s with command := value, chrBase := chrBaseOf value }
  if s.prgSwap = value &&& 0x40 then (s, [])
  else
    let window : UInt16 := if value &&& 0x40 != 0 then 0x8000 else 0xC000
    ({ s with prgSwap := value &&& 0x40 }, [.prg 8 window (view.prg8 - 2)])

/-- Reloads the counter if a reload is due. -/
def settle (s : Mmc3) : Mmc3 := if s.reload then { s with counter := bank s.latch } else s

/-- A write to one of the eight registers, before a due reload. -/
def writeRegister (s : Mmc3) (view : View) (address : UInt16) (value : UInt8) : Mmc3 × List Signal :=
  let p := address &&& 0xE001
  if p = 0x8000 then s.setCommand view value
  else if p = 0x8001 then (s, s.bankSignals value)
  else if p = 0xA000 then
    (s, if view.fourScreen then [] else [.horizontalIf (value &&& 1 != 0)])
  else if p = 0xC000 then ({ s with latch := value }, [])
  else if p = 0xC001 then ({ s with reload := true, counter := bank s.latch }, [])
  else if p = 0xE000 then ({ s with enabled := false }, [])
  else if p = 0xE001 then ({ s with enabled := true }, [])
  else (s, [])

/-- One write. -/
def write (s : Mmc3) (view : View) (address : UInt16) (value : UInt8) : Mmc3 × List Signal :=
  let (s, signals) := s.writeRegister view address value
  (s.settle, signals)

/-- The end of a line. -/
def hblank (s : Mmc3) (view : View) (vblank : Bool) : Mmc3 × List Signal :=
  if vblank || !view.rendering || s.counter < 0 then (s, [])
  else
    let s := { s with reload := false, counter := s.counter - 1 }
    if s.counter < 0 && s.enabled then ({ s with reload := true }, [.irq]) else (s, [])

/-- What a snapshot keeps. -/
def save (s : Mmc3) : List UInt8 :=
  [UInt8.ofInt s.counter, s.latch, if s.enabled then 1 else 0, s.command]

/-- Takes a snapshot's bytes over. -/
def load (s : Mmc3) (bytes : Nat → UInt8) : Mmc3 :=
  { s with
    counter := bank (bytes 0), latch := bytes 1, enabled := bytes 2 != 0
    command := bytes 3, chrBase := chrBaseOf (bytes 3) }

end Mmc3

end Famicom
