import Famicom.AddressRange
import Famicom.Sound.Square

/-!
The MMC5's sound: two pulse voices without sweep, a level that is written directly, and an 8 by 8 bit
multiplier that shares their address range.

    $5000-$5003, $5004-$5007   voices       $5010, $5011   direct level       $5015   switches
    $5205, $5206               factors when written, the product's low and high byte when read

The chip goes by the rates that it was given at its last reset.
-/

namespace Famicom

/-- A pulse voice of the MMC5. -/
structure Mmc5Pulse where
  control : UInt8 := 0
  timerLow : UInt8 := 0
  timerHigh : UInt8 := 0
  enabled : Bool := false
  /-- Cycles per step; taken from the timer only while the voice is on. -/
  period : Nat := 0
  /-- Samples until the note ends. -/
  length : Int := 0
  envelope : Envelope := {}
  oscillator : Oscillator := {}
  /-- The step of the wave, below sixteen. -/
  step : Nat := 0
  /-- The last output. -/
  level : Int := 0
  deriving Inhabited

namespace Mmc5Pulse

/-- Duty, hold mark, and volume or delay. -/
def writeControl (p : Mmc5Pulse) (value : UInt8) (t : Timing) : Mmc5Pulse :=
  { p with control := value, envelope.delay := t.delay (volumeCode value) }

/-- The period that the timer's registers ask for. -/
def timer (p : Mmc5Pulse) : Nat := p.timerHigh.toNat % 8 * 256 + p.timerLow.toNat + 1

/-- The low eight bits of the timer. -/
def writeTimerLow (p : Mmc5Pulse) (value : UInt8) : Mmc5Pulse :=
  let p := { p with timerLow := value }
  if p.enabled then { p with period := p.timer } else p

/-- The high three bits of the timer and the length code; a note starts if the voice is on. -/
def writeTimerHigh (p : Mmc5Pulse) (value : UInt8) (t : Timing) : Mmc5Pulse :=
  let p := { p with timerHigh := value }
  if p.enabled then
    { p with
      length := t.lengthOf value
      envelope := p.envelope.restart
      period := p.timer
      step := 0 }
  else p

/-- Switches the voice; off ends the note. -/
def setEnabled (p : Mmc5Pulse) (enabled : Bool) : Mmc5Pulse :=
  { p with enabled, length := if enabled then p.length else 0 }

/-- The note still sounds. -/
def sounding (p : Mmc5Pulse) : Bool := p.enabled && p.length != 0

/-- Runs the wave by the steps of one sample; without a step the output stays. -/
def run (p : Mmc5Pulse) (steps : Nat) : Mmc5Pulse :=
  if steps = 0 then p else
    { p with
      step := (p.step + steps) % 16
      level := Int.tdiv (amplitude p.control p.envelope * swing (highSteps p.control) p.step steps)
        steps }

/-- The next sample. -/
def sample (p : Mmc5Pulse) (pace : Pace) (cycles : Float32) : Int × Mmc5Pulse :=
  let p := { p with level := fade p.level }
  if !p.sounding then (0, { p with level := 0 }) else
    let held := isHeld p.control
    let p := { p with
      length := countDown held p.length
      envelope := p.envelope.advance held }
    if p.period < 4 then (p.level, p) else
      let (steps, oscillator) := pace p.oscillator cycles p.period none
      let p := { p with oscillator }.run steps
      (p.level, p)

end Mmc5Pulse

/-- The sound part of an MMC5. -/
structure Mmc5Sound where
  first : Mmc5Pulse := {}
  second : Mmc5Pulse := {}
  /-- The direct level is heard. -/
  direct : Bool := false
  directLevel : Int := 0
  factor1 : UInt8 := 0
  factor2 : UInt8 := 0
  /-- The rates as of the last reset; before the first there are none. -/
  timing : Timing := { samples := 0 }
  deriving Inhabited

namespace Mmc5Sound

/-- The addresses it takes writes at. -/
def writeRanges : List AddressRange := [(0x5000, 0x5015), (0x5114, 0x5115), (0x5205, 0x5206)]

/-- The addresses it answers reads at. -/
def readRanges : List AddressRange := [(0x5205, 0x5206)]

/-- A written register. -/
def write (s : Mmc5Sound) (address : UInt16) (value : UInt8) : Mmc5Sound :=
  match address with
  | 0x5000 => { s with first := s.first.writeControl value s.timing }
  | 0x5004 => { s with second := s.second.writeControl value s.timing }
  | 0x5002 => { s with first := s.first.writeTimerLow value }
  | 0x5006 => { s with second := s.second.writeTimerLow value }
  | 0x5003 => { s with first := s.first.writeTimerHigh value s.timing }
  | 0x5007 => { s with second := s.second.writeTimerHigh value s.timing }
  | 0x5010 => { s with direct := value &&& 1 != 0 }
  | 0x5011 => { s with directLevel := (value ^^^ 0x80).toNat * 256 }
  | 0x5015 =>
    { s with
      first := s.first.setEnabled (value &&& 1 != 0)
      second := s.second.setEnabled (value &&& 2 != 0) }
  | 0x5205 => { s with factor1 := value }
  | 0x5206 => { s with factor2 := value }
  | _ => s

/-- A register that is read: the product of the factors. -/
def read (s : Mmc5Sound) (address : UInt16) : UInt8 :=
  let product := s.factor1.toNat * s.factor2.toNat
  match address with
  | 0x5205 => UInt8.ofNat product
  | 0x5206 => UInt8.ofNat (product / 256)
  | _ => 0xFF

/-- The registers that a reset clears; the switches are not among them. -/
def clearedByReset : List UInt16 :=
  [0x5000, 0x5001, 0x5002, 0x5003, 0x5004, 0x5005, 0x5006, 0x5007, 0x5010, 0x5011]

/-- Takes the rates over and clears the registers. -/
def reset (s : Mmc5Sound) (t : Timing) : Mmc5Sound :=
  clearedByReset.foldl (fun s address => s.write address 0) { s with timing := t }

/-- The next sample. -/
def sample (s : Mmc5Sound) (pace : ChipPaces) : Int × Mmc5Sound :=
  let (a, first) := s.first.sample pace.first s.timing.cycleRate
  let (b, second) := s.second.sample pace.second s.timing.cycleRate
  (a + b + if s.direct then s.directLevel else 0, { s with first, second })

end Mmc5Sound

end Famicom
