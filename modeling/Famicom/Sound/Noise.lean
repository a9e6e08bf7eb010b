import Famicom.Sound.Envelope
import Famicom.Sound.Oscillator
import Famicom.Sound.Timing

/-!
The noise voice plays the output bits of a 15-bit shift register from a table, high for a 0.

    14 ← · · · · · · · · · · · · · ← bit 0 ─▶ output      bit 14 becomes bit 0 xor the tap

Tapped at bit 1 the register runs through all 32767 states. Tapped at bit 6 it has short cycles: 93 bits
are drawn from it each time the voice enters the short mode, from where the previous drawing stopped.

The period and the envelope's delay are latched when their registers are written.
-/

namespace Famicom

/-- One step of the shift register: the output and the next state. -/
def shiftNoise (tap : UInt32) (register : UInt32) : Bool × UInt32 :=
  let low := register &&& 1
  let high := low ^^^ ((register >>> tap) &&& 1)
  (low == 0, (high <<< 14) ||| (register >>> 1))

/-- The next `count` outputs, and the state after them. -/
def drawNoise (tap : UInt32) (count : Nat) (register : UInt32) : Array Bool × UInt32 :=
  (List.range count).foldl (fun (drawn, register) _ =>
    let (out, register) := shiftNoise tap register
    (drawn.push out, register)) (#[], register)

/-- The state the shift register starts from. -/
def noiseSeed : UInt32 := 0x4000

/-- The outputs of the long mode, and the state after one round. -/
def longNoise : Array Bool × UInt32 := drawNoise 1 0x7FFF noiseSeed

/-- The outputs of the short mode that follow a state. -/
def shortNoise (register : UInt32) : Array Bool × UInt32 := drawNoise 6 93 register

/-- Cycles per output bit, by the low four bits of the mode register. -/
def noisePeriods : Vector Nat 16 :=
  #v[4, 8, 16, 32, 64, 96, 128, 160, 202, 254, 380, 508, 762, 1016, 2034, 4068]

/-- The noise voice. -/
structure Noise where
  control : UInt8 := 0
  mode : UInt8 := 0
  lengthCode : UInt8 := 0
  enabled : Bool := false
  /-- Samples until the note ends. -/
  length : Int := 0
  envelope : Envelope := {}
  oscillator : Oscillator := {}
  /-- Cycles per output bit; 0 until the mode register is written. -/
  period : Nat := 0
  /-- The position in the table of outputs. -/
  position : Nat := 0
  /-- The outputs of the short mode. -/
  short : Array Bool := (shortNoise longNoise.2).1
  /-- The shift register. -/
  register : UInt32 := (shortNoise longNoise.2).2
  /-- The last output, before scaling. -/
  level : Int := 0
  deriving Inhabited

namespace Noise

/-- The short mode is on. -/
def isShort (w : Noise) : Bool := w.mode &&& 0x80 != 0

/-- Hold mark, and volume or delay. -/
def writeControl (w : Noise) (value : UInt8) (t : Timing) : Noise :=
  { w with control := value, envelope.delay := t.delay (volumeCode value) }

/-- Mode and period. Entering the short mode draws its outputs anew. -/
def writeMode (w : Noise) (value : UInt8) : Noise :=
  let period := periodOf noisePeriods value
  if value &&& 0x80 != 0 && !w.isShort then
    let (short, register) := shortNoise w.register
    { w with mode := value, period, short, register, position := 0 }
  else { w with mode := value, period }

/-- The length code; the note starts. -/
def writeLength (w : Noise) (value : UInt8) (t : Timing) : Noise :=
  { w with lengthCode := value, length := t.lengthOf value, envelope := w.envelope.restart }

/-- Switches the voice; off ends the note. -/
def setEnabled (w : Noise) (enabled : Bool) : Noise :=
  { w with enabled, length := if enabled then w.length else 0 }

/-- The note still sounds. -/
def sounding (w : Noise) : Bool := w.enabled && w.length != 0

/-- The table being played. -/
def table (w : Noise) : Array Bool := if w.isShort then w.short else longNoise.1

/-- The position after `i` more steps through the table: past the end it starts over. -/
def positionAfter (w : Noise) (i : Nat) : Nat := (w.position + i) % w.table.size

/-- High outputs less low outputs among the next `steps`. -/
def swing (w : Noise) (steps : Nat) : Int :=
  (List.range steps).foldl (fun sum i =>
    if w.table.getD (w.positionAfter (i + 1)) false then sum + 1 else sum - 1) 0

/-- Plays the bits of one sample; without a bit the output stays. -/
def run (w : Noise) (steps : Nat) : Noise :=
  if steps = 0 then w else
    { w with
      position := w.positionAfter steps
      level := Int.tdiv (amplitude w.control w.envelope * w.swing steps) steps }

/-- The output: three quarters of the level. -/
def output (w : Noise) : Int := w.level * 3 / 4

/-- The next sample. -/
def sample (w : Noise) (pace : Pace) (cycles : Float32) : Int × Noise :=
  let w := { w with level := fade w.level }
  if !w.sounding then (0, { w with level := 0 }) else
    let held := isHeld w.control
    let w := { w with
      length := countDown held w.length
      envelope := w.envelope.advance held }
    let (steps, oscillator) := pace w.oscillator cycles w.period none
    let w := { w with oscillator }.run steps
    (w.output, w)

end Noise

end Famicom
