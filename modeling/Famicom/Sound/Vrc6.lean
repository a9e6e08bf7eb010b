import Famicom.AddressRange
import Famicom.Sound.Oscillator
import Famicom.Sound.Timing

/-!
The VRC6's sound: two pulse voices with eight duty settings and a sawtooth.

    $9000-$9002   first pulse       bit  7 6 5 4   3 2 1 0
    $A000-$A002   second pulse           duty      volume      second register: low timer byte
    $B000-$B002   sawtooth          third register: bit 7 switches on, bits 0-3 are the timer's top

The sawtooth adds its rate to an accumulator six times and starts over at the seventh step. Periods are latched when
a timer's register is written; the chip goes by the rates that it was given at its last reset.
-/

namespace Famicom

/-- The three registers of a VRC6 voice. -/
structure Vrc6Registers where
  control : UInt8 := 0
  timerLow : UInt8 := 0
  timerHigh : UInt8 := 0
  /-- The period; 0 until one of the timer's registers is written. -/
  period : Nat := 0
  deriving DecidableEq, Repr, Inhabited

namespace Vrc6Registers

/-- The voice is switched on. -/
def enabled (r : Vrc6Registers) : Bool := r.timerHigh &&& 0x80 != 0

/-- The twelve-bit timer plus one. -/
def timer (r : Vrc6Registers) : Nat := r.timerHigh.toNat % 16 * 256 + r.timerLow.toNat + 1

/-- Takes the period over from the timer's registers. -/
def latch (r : Vrc6Registers) : Vrc6Registers := { r with period := r.timer }

/-- Stores one of the registers. -/
def write (r : Vrc6Registers) (index : UInt16) (value : UInt8) : Vrc6Registers :=
  match index with
  | 0 => { r with control := value }
  | 1 => latch { r with timerLow := value }
  | 2 => latch { r with timerHigh := value }
  | _ => r

end Vrc6Registers

/-- A pulse voice of the VRC6. -/
structure Vrc6Pulse where
  registers : Vrc6Registers := {}
  oscillator : Oscillator := {}
  /-- The step of the wave, below sixteen. -/
  step : Nat := 0
  deriving Inhabited

/-- The next sample: the wave is low in the first steps, as many as the duty says and one more. -/
def Vrc6Pulse.sample (p : Vrc6Pulse) (pace : Pace) (cycles : Float32) : Int × Vrc6Pulse :=
  let (steps, oscillator) := pace p.oscillator cycles p.registers.period none
  let step := (p.step + steps) % 16
  let volume : Int := p.registers.control.toNat % 16 * 256
  let out :=
    if !p.registers.enabled then 0
    else if step < p.registers.control.toNat / 16 + 1 then -volume
    else volume
  (out, { p with oscillator, step })

/-- The sawtooth voice. -/
structure Vrc6Saw where
  registers : Vrc6Registers := {}
  oscillator : Oscillator := {}
  /-- The step of the wave, below seven. -/
  step : Nat := 0
  accumulator : UInt8 := 0
  deriving Inhabited

namespace Vrc6Saw

/-- Moves the wave one step. -/
def move (w : Vrc6Saw) : Vrc6Saw :=
  if w.step + 1 = 7 then { w with step := 0, accumulator := 0 }
  else { w with step := w.step + 1, accumulator := w.accumulator + (w.registers.control &&& 0x3F) }

/-- The next sample: the top five bits of the accumulator. A step takes twice the timer's period. -/
def sample (w : Vrc6Saw) (pace : Pace) (cycles : Float32) : Int × Vrc6Saw :=
  let (steps, oscillator) := pace w.oscillator cycles (w.registers.period * 2) none
  let w := Nat.repeat move steps { w with oscillator }
  (if w.registers.enabled then (w.accumulator >>> 3).toNat * 512 else 0, w)

end Vrc6Saw

/-- The sound part of a VRC6. -/
structure Vrc6Sound where
  first : Vrc6Pulse := {}
  second : Vrc6Pulse := {}
  saw : Vrc6Saw := {}
  /-- Processor cycles per sample as of the last reset. -/
  cycles : Float32 := 0
  deriving Inhabited

namespace Vrc6Sound

/-- The addresses it takes writes at. -/
def writeRanges : List AddressRange := [(0x9000, 0x9002), (0xA000, 0xA002), (0xB000, 0xB002)]

/-- A written register; bit 14 of the address is not looked at. -/
def write (s : Vrc6Sound) (address : UInt16) (value : UInt8) : Vrc6Sound :=
  let index := address &&& 3
  match address &&& 0xB000 with
  | 0x9000 => { s with first.registers := s.first.registers.write index value }
  | 0xA000 => { s with second.registers := s.second.registers.write index value }
  | 0xB000 => { s with saw.registers := s.saw.registers.write index value }
  | _ => s

/-- The registers that a reset clears. -/
def clearedByReset : List UInt16 :=
  [0x9000, 0xA000, 0xB000, 0x9001, 0xA001, 0xB001, 0x9002, 0xA002, 0xB002]

/-- Takes the rates over and clears the registers. -/
def reset (s : Vrc6Sound) (t : Timing) : Vrc6Sound :=
  clearedByReset.foldl (fun s address => s.write address 0) { s with cycles := t.cycleRate }

/-- The next sample. -/
def sample (s : Vrc6Sound) (pace : ChipPaces) : Int × Vrc6Sound :=
  let (a, first) := s.first.sample pace.first s.cycles
  let (b, second) := s.second.sample pace.second s.cycles
  let (c, saw) := s.saw.sample pace.third s.cycles
  (a + b + c, { s with first, second, saw })

end Vrc6Sound

end Famicom
