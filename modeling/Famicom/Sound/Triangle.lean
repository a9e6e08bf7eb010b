import Famicom.Sound.Envelope
import Famicom.Sound.Oscillator
import Famicom.Sound.Timing

/-!
The triangle voice: sixteen steps up and sixteen steps down, without volume.

Two counters end a note, the length counter and the linear counter. They start only some 228 cycles
after the timer was written, so that a program which writes the timer before the linear register does
not start the count early.
-/

namespace Famicom

/-- The triangle voice. -/
structure Triangle where
  linear : UInt8 := 0
  timerLow : UInt8 := 0
  timerHigh : UInt8 := 0
  enabled : Bool := false
  /-- Both counters run. -/
  counting : Bool := false
  /-- Samples until the counters start. -/
  latency : Int := 0
  /-- Samples until the note ends. -/
  length : Int := 0
  /-- Samples until the linear counter ends the note. -/
  linearLength : Int := 0
  /-- Cycles per step, latched with the timer's registers; 0 until one of them is written. -/
  period : Nat := 0
  oscillator : Oscillator := {}
  /-- The step of the wave, below 32. -/
  step : Nat := 0
  /-- The last output, before scaling. -/
  level : Int := 0
  deriving Inhabited

namespace Triangle

/-- The note is held: its length does not count. -/
def held (w : Triangle) : Bool := w.linear &&& 0x80 != 0

/-- The period that the timer's registers ask for. -/
def timer (w : Triangle) : Nat := w.timerHigh.toNat % 8 * 256 + w.timerLow.toNat + 1

/-- Takes the period over from the timer's registers. -/
def latch (w : Triangle) : Triangle := { w with period := w.timer }

/-- The hold mark and the linear length, which is taken only before the counters run. -/
def writeLinear (w : Triangle) (value : UInt8) (t : Timing) : Triangle :=
  { w with
    linear := value
    linearLength :=
      if !w.counting && w.length != 0 then t.linearLength (value.toNat % 128) else w.linearLength }

/-- The low eight bits of the period. -/
def writeTimerLow (w : Triangle) (value : UInt8) : Triangle := latch { w with timerLow := value }

/-- Samples that 228 cycles take, rounded down. -/
def latencyOf (t : Timing) : Int := min 0x7FFFFFFF (228 / t.cycleRate).toUInt32.toNat

/-- The high three bits of the period and the length code; the note starts. -/
def writeTimerHigh (w : Triangle) (value : UInt8) (t : Timing) : Triangle :=
  latch { w with
    timerHigh := value
    latency := latencyOf t
    length := t.lengthOf value
    counting := false
    linearLength := t.linearLength (w.linear.toNat % 128) }

/-- Switches the voice; off ends the note and stops the counters. -/
def setEnabled (w : Triangle) (enabled : Bool) : Triangle :=
  if enabled then { w with enabled := true }
  else { w with enabled := false, length := 0, linearLength := 0, counting := false, latency := 0 }

/-- The note still sounds. -/
def sounding (w : Triangle) : Bool := w.enabled && w.length != 0

/-- One sample of the counters. -/
def count (w : Triangle) : Triangle :=
  if w.counting then
    { w with
      linearLength := if w.linearLength > 0 then w.linearLength - 1 else w.linearLength
      length := if w.length != 0 && !w.held then w.length - 1 else w.length }
  else if !w.held && w.latency != 0 then
    { w with latency := w.latency - 1, counting := w.latency == 1 }
  else w

/-- How far one step of the wave moves the output. -/
def stepSize : Int := 512

/-- Moves the wave one step, up in the first half and down in the second. -/
def move (w : Triangle) : Triangle :=
  let step := (w.step + 1) % 32
  { w with step, level := if step < 16 then w.level + stepSize else w.level - stepSize }

/-- The output: the level and a quarter more. -/
def output (w : Triangle) : Int := w.level + w.level / 4

/-- The next sample. -/
def sample (w : Triangle) (pace : Pace) (cycles : Float32) : Int × Triangle :=
  let w := { w with level := fade w.level }
  if !w.sounding then (0, { w with level := 0 }) else
    let w := w.count
    if w.linearLength = 0 ∨ w.period < 4 then (w.output, w) else
      let (steps, oscillator) := pace w.oscillator cycles w.period none
      let w := Nat.repeat move steps { w with oscillator }
      (w.output, w)

end Triangle

end Famicom
