import Famicom.Sound.Envelope
import Famicom.Sound.Oscillator
import Famicom.Sound.Timing

/-!
Pulse voices. The wave has sixteen steps, of which the duty setting makes 2, 4, 8 or 12 high. A sample is
the mean of the steps that came due in it, rounded toward zero.

    step    0 1 2 3 4 5 6 7 8 9 a b c d e f
    duty 4  ▔ ▔ ▔ ▔ ▁ ▁ ▁ ▁ ▁ ▁ ▁ ▁ ▁ ▁ ▁ ▁

The two voices of the console have a sweep, which bends the period while the note sounds; when it bends
downwards the first voice takes one cycle more. Its delay is latched as the envelope's is.
-/

namespace Famicom

/-- High steps of the wave, by the two top bits of the control register. -/
def highSteps (control : UInt8) : Nat :=
  match control.toNat / 64 with
  | 0 => 2
  | 1 => 4
  | 2 => 8
  | _ => 12

/-- High steps less low steps among the `steps` steps after step `start`. -/
def swing (high start steps : Nat) : Int :=
  (List.range steps).foldl (fun sum i => if (start + 1 + i) % 16 < high then sum + 1 else sum - 1) 0

/-- A pulse voice of the console. -/
structure Pulse where
  control : UInt8 := 0
  sweep : UInt8 := 0
  timerLow : UInt8 := 0
  timerHigh : UInt8 := 0
  enabled : Bool := false
  /-- The timer's period, which the sweep bends. -/
  period : Int := 0
  /-- Samples until the note ends. -/
  length : Int := 0
  envelope : Envelope := {}
  sweepPhase : Int := 0
  /-- What a lap of the sweep gives back to its phase; 0 until the sweep's register is written. -/
  sweepDelay : Int := 0
  oscillator : Oscillator := {}
  /-- The step of the wave, below sixteen. -/
  step : Nat := 0
  /-- The last output. -/
  level : Int := 0
  deriving Inhabited

namespace Pulse

/-! ### Registers -/

/-- The sweep shifts the period by so many bits. -/
def sweepShift (p : Pulse) : Nat := p.sweep.toNat % 8

/-- The sweep bends the period downwards. -/
def sweepsDown (p : Pulse) : Bool := p.sweep &&& 0x08 != 0

/-- The sweep is switched on and bends. -/
def sweeps (p : Pulse) : Bool := p.sweep &&& 0x80 != 0 && p.sweepShift != 0

/-- The longest period that can still be bent upwards without overflow. -/
def periodLimit (p : Pulse) : Int :=
  match p.sweepShift with
  | 0 => 0x3FF
  | 1 => 0x555
  | 2 => 0x666
  | 3 => 0x71C
  | 4 => 0x787
  | 5 => 0x7C1
  | 6 => 0x7E0
  | _ => 0x7F0

/-- Duty, hold mark, and volume or delay. -/
def writeControl (p : Pulse) (value : UInt8) (t : Timing) : Pulse :=
  { p with control := value, envelope.delay := t.delay (volumeCode value) }

/-- The sweep's setting. -/
def writeSweep (p : Pulse) (value : UInt8) (t : Timing) : Pulse :=
  { p with sweep := value, sweepDelay := t.delay (value.toNat / 16 % 8) }

/-- The low eight bits of the period. -/
def writeTimerLow (p : Pulse) (value : UInt8) : Pulse :=
  { p with timerLow := value, period := p.period / 256 * 256 + value.toNat }

/-- The high three bits of the period and the length code; the note starts. -/
def writeTimerHigh (p : Pulse) (value : UInt8) (t : Timing) : Pulse :=
  { p with
    timerHigh := value
    length := t.lengthOf value
    envelope := p.envelope.restart
    period := value.toNat % 8 * 256 + p.period % 256
    step := 0 }

/-- Switches the voice; off ends the note. -/
def setEnabled (p : Pulse) (enabled : Bool) : Pulse :=
  { p with enabled, length := if enabled then p.length else 0 }

/-- The note still sounds. -/
def sounding (p : Pulse) : Bool := p.enabled && p.length != 0

/-! ### Samples -/

/-- Periods that the timer cannot play, or that a bend upwards would overflow, are silent. -/
def isMuted (p : Pulse) : Bool := p.period < 8 || (!p.sweepsDown && p.period > p.periodLimit)

/-- Bends the period once. -/
def bend (p : Pulse) (extra : Int) : Pulse :=
  let delta := p.period >>> p.sweepShift
  { p with period := if p.sweepsDown then p.period - (delta + extra) else p.period + delta }

/-- One lap of the sweep: its phase gets the delay back, and the period bends. -/
def lapSweep (p : Pulse) (extra : Int) : Pulse :=
  { p.bend extra with sweepPhase := p.sweepPhase + p.sweepDelay }

/-- The laps that are due: one after the other as long as the phase is negative. -/
def lapsSweep (p : Pulse) (extra : Int) : Option Pulse :=
  Loop.run ⟨(·.sweepPhase < 0), (·.lapSweep extra)⟩ p

/-- The phase of the sweep falls by two. -/
def fallSweep (p : Pulse) : Pulse := { p with sweepPhase := p.sweepPhase - 2 }

/-- One sample of the sweep: its phase falls, and laps follow; where they never end, it stays negative. -/
def advanceSweep (p : Pulse) (extra : Int) : Pulse :=
  if !p.sweeps then p else (p.fallSweep.lapsSweep extra).getD p.fallSweep

/-- Runs the wave by the steps of one sample; without a step the output stays. -/
def run (p : Pulse) (steps : Nat) : Pulse :=
  if steps = 0 then p else
    { p with
      step := (p.step + steps) % 16
      level := Int.tdiv (amplitude p.control p.envelope * swing (highSteps p.control) p.step steps)
        steps }

/-- The next sample; `extra` is what a bend downwards takes in addition. -/
def sample (p : Pulse) (pace : Pace) (extra : Int) (cycles : Float32) : Int × Pulse :=
  let p := { p with level := fade p.level }
  if !p.sounding then (0, { p with level := 0 }) else
    let held := isHeld p.control
    let p := { p with
      length := countDown held p.length
      envelope := p.envelope.advance held }
    if p.isMuted then (p.level, p) else
      let p := p.advanceSweep extra
      let (steps, oscillator) := pace p.oscillator cycles (p.period + 1).toNat none
      let p := { p with oscillator }.run steps
      (p.level, p)

end Pulse

end Famicom
