/-!
The clock of the sound unit. All its times are counted in output samples: a frame takes
`samples = rate / refresh` of them, and envelopes, sweeps and note lengths are multiples of a frame, in
32-bit arithmetic that wraps at absurd rates.

    note length of code k       k-th entry of a table of frames, times `samples`
    envelope or sweep delay i   (i + 1) · samples
    linear length i             i quarters of a frame, rounded down
-/

namespace Famicom

/-- Frequency of the processor in hertz. -/
def processorHertz : Float := 1789772.7272727273

/-- The rates of a sound unit and what follows from them. -/
structure Timing where
  sampleRate : Nat := 44100
  refreshRate : Nat := 60
  /-- Output samples per frame. -/
  samples : Int := 735
  /-- Processor cycles per output sample. -/
  cycleRate : Float32 := 0
  deriving Inhabited

namespace Timing

/-- The value of a signed 32-bit register after a computation that may have left its range. -/
def wrap (x : Int) : Int := Int.bmod x 0x100000000

/-- The timing for a sample rate and a refresh rate; a rate of zero counts as one. -/
def ofRates (sampleRate refreshRate : UInt32) : Timing :=
  let sampleRate := max sampleRate.toNat 1
  let refreshRate := max refreshRate.toNat 1
  { sampleRate
    refreshRate
    samples := wrap (sampleRate / refreshRate : Nat)
    cycleRate := (processorHertz / Float.ofNat sampleRate).toFloat32 }

/-- Note lengths in frames, by the top five bits of a length register. -/
def noteFrames : Vector Int 32 :=
  #v[5, 127, 10, 1, 19, 2, 40, 3, 80, 4, 30, 5, 7, 6, 13, 7,
    6, 8, 12, 9, 24, 10, 48, 11, 96, 12, 36, 13, 8, 14, 16, 15]

/-- The delay of an envelope or sweep step, by its four-bit code. -/
def delay (t : Timing) (code : Nat) : Int := wrap (t.samples * (code + 1 : Nat))

/-- The length of a note, by the five-bit length code. -/
def noteLength (t : Timing) (code : Nat) : Int := wrap (noteFrames[code % 32] * t.samples)

/-- The length that a length register's value asks for. -/
def lengthOf (t : Timing) (register : UInt8) : Int := t.noteLength (register.toNat / 8)

/-- The linear length, by its seven-bit code: so many quarters of a frame, within 32 bits. -/
def linearLength (t : Timing) (code : Nat) : Int :=
  max (-0x80000000) (min 0x7FFFFFFF (Int.tdiv (code * t.samples) 4))

/-- Samples that one frame needs, as an unsigned 64-bit count. -/
def frameSamples (t : Timing) : Nat := (t.samples % 0x10000000000000000).toNat

end Timing

end Famicom
