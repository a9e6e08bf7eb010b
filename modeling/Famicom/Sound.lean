import Famicom.Sound.Expansion
import Famicom.Sound.Noise
import Famicom.Sound.Sample
import Famicom.Sound.Triangle

/-!
The sound unit: two pulses, a triangle, noise and samples, and perhaps a chip on the cartridge. The voices
that the mix mask names are run and added up sample by sample, smoothed and clipped to sixteen bits.

    mask   01 pulse 1   02 pulse 2   04 triangle   08 noise   10 samples   20 cartridge

A voice outside the mask does not run at all: its counters stand still.
-/

namespace Famicom

/-- Smoothing after the mix. -/
inductive Filter where
  | none | lowpass | weighted
  deriving DecidableEq, Repr, Inhabited

/-- The sound unit. -/
structure Sound where
  pulse1 : Pulse := {}
  pulse2 : Pulse := {}
  triangle : Triangle := {}
  noise : Noise := {}
  sample : SampleVoice := {}
  /-- The switch register as it was written. -/
  switches : UInt8 := 0
  mixMask : UInt8 := 0x3F
  filter : Filter := .weighted
  /-- The previous mix, for the filter. -/
  previous : Int := 0
  timing : Timing := {}
  expansion : Option Expansion := none
  deriving Inhabited

namespace Sound

/-- All bits of a mix mask. -/
def allVoices : UInt8 := 0x3F

/-! ### Registers -/

/-- The switch register: bit by bit the voices, the lowest bit for the first pulse. -/
def writeSwitches (s : Sound) (value : UInt8) : Sound :=
  { s with
    switches := value
    pulse1 := s.pulse1.setEnabled (value &&& 0x01 != 0)
    pulse2 := s.pulse2.setEnabled (value &&& 0x02 != 0)
    triangle := s.triangle.setEnabled (value &&& 0x04 != 0)
    noise := s.noise.setEnabled (value &&& 0x08 != 0)
    sample := s.sample.setEnabled (value &&& 0x10 != 0) }

/-- A written register, by its address. -/
def write (s : Sound) (address : UInt16) (value : UInt8) : Sound :=
  match address with
  | 0x4000 => { s with pulse1 := s.pulse1.writeControl value s.timing }
  | 0x4001 => { s with pulse1 := s.pulse1.writeSweep value s.timing }
  | 0x4002 => { s with pulse1 := s.pulse1.writeTimerLow value }
  | 0x4003 => { s with pulse1 := s.pulse1.writeTimerHigh value s.timing }
  | 0x4004 => { s with pulse2 := s.pulse2.writeControl value s.timing }
  | 0x4005 => { s with pulse2 := s.pulse2.writeSweep value s.timing }
  | 0x4006 => { s with pulse2 := s.pulse2.writeTimerLow value }
  | 0x4007 => { s with pulse2 := s.pulse2.writeTimerHigh value s.timing }
  | 0x4008 => { s with triangle := s.triangle.writeLinear value s.timing }
  | 0x400A => { s with triangle := s.triangle.writeTimerLow value }
  | 0x400B => { s with triangle := s.triangle.writeTimerHigh value s.timing }
  | 0x400C => { s with noise := s.noise.writeControl value s.timing }
  | 0x400E => { s with noise := s.noise.writeMode value }
  | 0x400F => { s with noise := s.noise.writeLength value s.timing }
  | 0x4010 => { s with sample := s.sample.writeControl value }
  | 0x4011 => { s with sample := s.sample.writeLevel value }
  | 0x4012 => { s with sample := s.sample.writeAddress value }
  | 0x4013 => { s with sample := s.sample.writeLength value }
  | 0x4015 => s.writeSwitches value
  | _ => s

/-- Which voices sound, from bit 0 up, and in bit 7 the request of the sample voice. -/
def status (s : Sound) : UInt8 :=
  (if s.pulse1.sounding then 0x01 else 0) ||| (if s.pulse2.sounding then 0x02 else 0) |||
    (if s.triangle.sounding then 0x04 else 0) ||| (if s.noise.sounding then 0x08 else 0) |||
    (if s.sample.enabled then 0x10 else 0) ||| (if s.sample.raised then 0x80 else 0)

/-- A register that is read. All but the status read as the high byte of their address, which is what is left
on the bus. -/
def read (s : Sound) (address : UInt16) : UInt8 :=
  if address = 0x4015 then s.status else (address >>> 8).toUInt8

/-- The registers as written, from $4000 on, with zeros in the gaps. -/
def registers (s : Sound) : List UInt8 :=
  [s.pulse1.control, s.pulse1.sweep, s.pulse1.timerLow, s.pulse1.timerHigh,
   s.pulse2.control, s.pulse2.sweep, s.pulse2.timerLow, s.pulse2.timerHigh,
   s.triangle.linear, 0, s.triangle.timerLow, s.triangle.timerHigh,
   s.noise.control, 0, s.noise.mode, s.noise.lengthCode,
   s.sample.control, s.sample.dac, s.sample.addressCode, s.sample.lengthCode,
   0, s.switches]

/-- Writes `value n` to the n-th register from $4000 on, the switches last. -/
def writeAll (s : Sound) (value : Nat → UInt8) : Sound :=
  let s := (List.range 0x14).foldl (fun s n => s.write (0x4000 + UInt16.ofNat n) (value n)) s
  s.write 0x4015 (value 0x15)

/-! ### Settings -/

/-- Clears the registers, and those of a chip on the cartridge. -/
def reset (s : Sound) : Sound :=
  let s := s.writeAll fun _ => 0
  { s with expansion := s.expansion.map (·.reset s.timing) }

/-- Changes the output rates, which resets the unit. -/
def setRates (s : Sound) (sampleRate refreshRate : UInt32) : Sound :=
  reset { s with timing := .ofRates sampleRate refreshRate }

/-- A unit for the given rates. -/
def ofRates (sampleRate refreshRate : UInt32) : Sound := setRates {} sampleRate refreshRate

/-- Plugs in a chip, or unplugs one. -/
def setChip (s : Sound) (chip : Option SoundChip) : Sound :=
  { s with expansion := chip.map (Expansion.ofChip · s.timing) }

/-- The chip that is plugged in. -/
def chip (s : Sound) : Option SoundChip := s.expansion.map (·.chip)

/-- Chooses the voices that are mixed. -/
def chooseVoices (s : Sound) (mask : UInt8) : Sound := { s with mixMask := mask &&& allVoices }

/-- Adds voices to the mix, or takes them out. -/
def setVoices (s : Sound) (voices : UInt8) (enabled : Bool) : Sound :=
  { s with mixMask := if enabled then s.mixMask ||| voices else s.mixMask &&& ~~~ voices }

/-! ### Samples -/

/-- What times the steps of the voices. -/
structure Paces where
  pulse1 : Pace := Oscillator.advance
  pulse2 : Pace := Oscillator.advance
  triangle : Pace := Oscillator.advance
  noise : Pace := Oscillator.advance
  sample : Pace := Oscillator.advance
  /-- The voices of the chip on the cartridge. -/
  chip : ChipPaces := {}
  deriving Inhabited

/-- The mask holds a voice's bit. -/
def mixes (s : Sound) (voice : UInt8) : Bool := s.mixMask &&& voice != 0

/-- The sum of the mixed voices' next samples. The sample voice reads memory and stalls the processor. -/
def mix (s : Sound) (paces : Paces) (cpu : Cpu) (cart : Cartridge) : Int × Sound × Cpu :=
  let cycles := s.timing.cycleRate
  let (a, pulse1) := if s.mixes 0x01 then s.pulse1.sample paces.pulse1 1 cycles else (0, s.pulse1)
  let (b, pulse2) := if s.mixes 0x02 then s.pulse2.sample paces.pulse2 0 cycles else (0, s.pulse2)
  let (c, triangle) := if s.mixes 0x04 then s.triangle.sample paces.triangle cycles else (0, s.triangle)
  let (d, noise) := if s.mixes 0x08 then s.noise.sample paces.noise cycles else (0, s.noise)
  let (e, sample, cpu) :=
    if s.mixes 0x10 then s.sample.sample paces.sample cycles cpu cart else (0, s.sample, cpu)
  let (f, expansion) := match s.expansion with
    | some chip =>
      if s.mixes 0x20 then let (out, chip) := chip.sample paces.chip; (out, some chip)
      else (0, some chip)
    | none => (0, none)
  (a + b + c + d + e + f, { s with pulse1, pulse2, triangle, noise, sample, expansion }, cpu)

/-- Smooths a mix with the previous one. -/
def smooth (s : Sound) (mixed : Int) : Int × Sound :=
  match s.filter with
  | .none => (mixed, s)
  | .lowpass => ((mixed + s.previous) / 2, { s with previous := mixed })
  | .weighted => ((mixed * 3 + s.previous) / 4, { s with previous := mixed })

/-- The next output sample, of sixteen bits. -/
def next (s : Sound) (paces : Paces) (cpu : Cpu) (cart : Cartridge) : Int × Sound × Cpu :=
  let (mixed, s, cpu) := s.mix paces cpu cart
  let (out, s) := s.smooth mixed
  (max (-0x8000) (min 0x7FFF out), s, cpu)

/-- The next `count` output samples. -/
def render (s : Sound) (cpu : Cpu) (cart : Cartridge) (count : Nat) : List Int × Sound × Cpu :=
  let (samples, s, cpu) := (List.range count).foldl (fun (samples, s, cpu) _ =>
    let (out, s, cpu) := s.next {} cpu cart
    (out :: samples, s, cpu)) ([], s, cpu)
  (samples.reverse, s, cpu)

/-- A sixteen-bit sample as an unsigned byte: its high byte, with silence at 128. -/
def toByte (sample : Int) : UInt8 := UInt8.ofNat ((sample / 256 + 128) % 256).toNat

end Sound

end Famicom
