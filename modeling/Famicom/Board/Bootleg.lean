import Famicom.Board.Signal
import Famicom.Text.Hex

/-!
Bootleg conversions of disk games. They put fixed program banks below and around one switchable window, and
count CPU cycles, a line at a time, towards an interrupt.
-/

namespace Famicom

/-! ### Board 40 -/

/-- The timer of board 40, in lines. -/
structure Board40 where
  enabled : Bool := false
  counter : Int := 0
  deriving DecidableEq, Repr, Inhabited

namespace Board40

/-- 4096 CPU cycles in whole lines. -/
def period : Int := 36

/-- Power-on. -/
def init : Board40 × List Signal :=
  (⟨false, period⟩, [.prg 8 0x6000 6, .prg 8 0x8000 4, .prg 8 0xA000 5, .prg 8 0xE000 7])

/-- One write: stop and rewind, start, or switch the window, by the 8KB the address lies in. -/
def write (s : Board40) (address : UInt16) (value : UInt8) : Board40 × List Signal :=
  match (address >>> 13).toNat with
  | 4 => (⟨false, period⟩, [])
  | 5 => ({ s with enabled := true }, [])
  | 7 => (s, [.prg 8 0xC000 (bank (value &&& 7))])
  | _ => (s, [])

/-- The end of a line. -/
def hblank (s : Board40) : Board40 × List Signal :=
  if s.enabled && s.counter != 0 then
    let counter := s.counter - 1
    if counter = 0 then (⟨false, counter⟩, [.irq]) else ({ s with counter }, [])
  else (s, [])

/-- What a snapshot keeps. -/
def save (s : Board40) : List UInt8 := [UInt8.ofInt s.counter, if s.enabled then 1 else 0]

/-- Takes a snapshot's bytes over. -/
def load (bytes : Nat → UInt8) : Board40 := ⟨bytes 1 != 0, bank (bytes 0)⟩

end Board40

/-! ### Cycle timers of boards 42 and 50 -/

/-- A timer that counts CPU cycles up from zero. -/
structure CycleTimer where
  enabled : Bool := false
  counter : UInt32 := 0
  deriving DecidableEq, Repr, Inhabited

namespace CycleTimer

/-- Starts the timer, or stops and rewinds it. -/
def switch (t : CycleTimer) (start : Bool) : CycleTimer :=
  if start then { t with enabled := true } else {}

/-- Lets a line of cycles pass; when the count is `due` it interrupts, stops and rewinds. -/
def tick (t : CycleTimer) (due : UInt32 → Bool) : CycleTimer × List Signal :=
  if !t.enabled then (t, [])
  else
    let counter := t.counter + 114
    if due counter then ({}, [.irq]) else ({ t with counter }, [])

end CycleTimer

/-- Board 42. -/
structure Board42 where
  timer : CycleTimer := {}
  deriving DecidableEq, Repr, Inhabited

namespace Board42

/-- Where the board can be written. -/
def writeRanges : List AddressRange := [(0xE000, 0xFFFF)]

/-- Power-on. -/
def init : Board42 × List Signal :=
  ({}, [.prg 8 0x8000 0x0C, .prg 8 0xA000 0x0D, .prg 8 0xC000 0x0E, .prg 8 0xE000 0x0F])

/-- One write. -/
def write (s : Board42) (address : UInt16) (value : UInt8) : Board42 × List Signal :=
  match (address &&& 3).toNat with
  | 0 => (s, [.prg 8 0x6000 (bank (value &&& 0x0F))])
  | 1 => (s, [.horizontalIf (value &&& 8 != 0)])
  | 2 => (⟨s.timer.switch (value &&& 2 != 0)⟩, [])
  | _ => (s, [])

/-- The end of a line: due after 24576 cycles. -/
def hblank (s : Board42) : Board42 × List Signal :=
  let (timer, signals) := s.timer.tick (0x6000 ≤ ·)
  (⟨timer⟩, signals)

end Board42

/-- Board 50. -/
structure Board50 where
  timer : CycleTimer := {}
  deriving DecidableEq, Repr, Inhabited

namespace Board50

/-- Where the board can be written. -/
def writeRanges : List AddressRange := [(0x4000, 0x5FFF)]

/-- Power-on. -/
def init : Board50 × List Signal :=
  ({}, [.prg 8 0x6000 0x0F, .prg 8 0x8000 0x08, .prg 8 0xA000 0x09, .prg 8 0xE000 0x0B])

/-- The bank in a written value, whose low three bits are wired crosswise. -/
def bankBits (value : UInt8) : UInt8 :=
  (value &&& 8) ||| (if value &&& 4 != 0 then 2 else 0) ||| (if value &&& 2 != 0 then 1 else 0) |||
    (if value &&& 1 != 0 then 4 else 0)

/-- One write. -/
def write (s : Board50) (address : UInt16) (value : UInt8) : Board50 × List Signal :=
  if address &&& 0x60 ≠ 0x20 then (s, [])
  else if address &&& 0x100 ≠ 0 then (⟨s.timer.switch (value &&& 1 != 0)⟩, [])
  else (s, [.prg 8 0xC000 (bank (bankBits value))])

/-- The end of a line: due when bit 12 of the count comes up. -/
def hblank (s : Board50) : Board50 × List Signal :=
  let (timer, signals) := s.timer.tick (· &&& 0x1000 != 0)
  (⟨timer⟩, signals)

end Board50

/-! ### Aladdin -/

/-- Registers of the Aladdin board. -/
structure Aladdin where
  enabled : Bool := false
  /-- The counter reached zero and its interrupt has not been answered. -/
  expired : Bool := false
  counter : Int := 0
  /-- What register C002 rewinds to. -/
  rest : UInt8 := 0
  latch : UInt8 := 0
  deriving DecidableEq, Repr, Inhabited

namespace Aladdin

/-- One write; an address without a register is logged. -/
def write (s : Aladdin) (address : UInt16) (value : UInt8) : Aladdin × List Signal :=
  if 0x8000 ≤ address && address ≤ 0x8003 then
    (s, [.prg 8 (0x8000 + 0x2000 * (address &&& 3)) (bank value)])
  else if 0x9000 ≤ address && address ≤ 0x9007 then
    (s, [.chr 1 (0x400 * (address &&& 7)) (bank value)])
  else if address = 0xC002 then ({ s with enabled := false, latch := s.rest }, [])
  else if address = 0xC003 then
    if s.expired then
      ({ s with expired := false, enabled := true, counter := bank s.latch }, [])
    else ({ s with counter := bank value }, [])
  else if address = 0xC005 then ({ s with latch := value, counter := bank value }, [])
  else (s, [.log s!"mapper 160: untrapped write ${Hex.byte value} to ${Hex.word address}"])

/-- The end of a line. -/
def hblank (s : Aladdin) (view : View) (vblank : Bool) : Aladdin × List Signal :=
  if vblank || !view.rendering || !s.enabled then (s, [])
  else if s.counter = 0 && !s.expired then ({ s with expired := true }, [.irq])
  else ({ s with counter := s.counter - 1 }, [])

end Aladdin

end Famicom
