import Famicom.Board.Signal

/-!
What the VRC boards share: one coding of the nametable wiring, bank numbers written a nybble at a time, and
a counter clocked once per line.

    counter   latch ─▶ … 254 ─▶ 255 ─▶ interrupt, back to the latch
    control   bit 1 enables, bit 0 says whether the counter stays on after an interrupt
-/

namespace Famicom

namespace Signal

/-- The nametable wiring in the low two bits of a value. -/
def vrcWiring (value : UInt8) : Signal :=
  match (value &&& 3).toNat with
  | 0 => vertical
  | 1 => horizontal
  | 2 => single 0
  | _ => single 1

end Signal

/-- The line counter of the VRC boards. -/
structure VrcCounter where
  counter : Nat := 0
  latch : UInt8 := 0
  enabled : Bool := false
  /-- Stay enabled after an interrupt, and when acknowledged. -/
  keep : Bool := false
  deriving DecidableEq, Repr, Inhabited

namespace VrcCounter

/-- Writes the low nybble of the latch. -/
def setLow (c : VrcCounter) (value : UInt8) : VrcCounter :=
  { c with latch := (c.latch &&& 0xF0) ||| (value &&& 0x0F) }

/-- Writes the high nybble of the latch. -/
def setHigh (c : VrcCounter) (value : UInt8) : VrcCounter :=
  { c with latch := (value <<< 4) ||| (c.latch &&& 0x0F) }

/-- Starts the counter from its latch and takes the control bits. -/
def start (c : VrcCounter) (value : UInt8) : VrcCounter :=
  { c with enabled := value &&& 2 != 0, keep := value &&& 1 != 0, counter := c.latch.toNat }

/-- Takes the control bits, and starts from the latch only if they enable the counter. -/
def control (c : VrcCounter) (value : UInt8) : VrcCounter :=
  let c := { c with enabled := value &&& 2 != 0, keep := value &&& 1 != 0 }
  if c.enabled then { c with counter := c.latch.toNat } else c

/-- Acknowledges an interrupt. -/
def acknowledge (c : VrcCounter) : VrcCounter := { c with enabled := c.keep }

/-- The end of a line. -/
def tick (c : VrcCounter) : VrcCounter × List Signal :=
  if !c.enabled then (c, [])
  else if c.counter + 1 = 256 then
    ({ c with counter := c.latch.toNat, enabled := c.keep }, [.irq])
  else ({ c with counter := c.counter + 1 }, [])

/-- The low byte of the counter and whether it runs: what the snapshots of these boards keep. -/
def save (c : VrcCounter) : List UInt8 := [UInt8.ofNat c.counter, if c.enabled then 1 else 0]

/-- Takes a snapshot's bytes over. -/
def load (c : VrcCounter) (bytes : Nat → UInt8) : VrcCounter :=
  { c with counter := (bytes 0).toNat, enabled := bytes 1 != 0 }

end VrcCounter

end Famicom
