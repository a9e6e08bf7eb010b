import Famicom.Cpu
import Famicom.Sound.Envelope
import Famicom.Sound.Oscillator

/-!
The sample voice plays one-bit deltas that it fetches from memory through the processor's windows.

    $4012 = A   from address $C000 + 64 · A, after $FFFF goes on at $8000
    $4013 = L   16 · L + 1 bytes, low bit first: a 1 raises the level by two, a 0 lowers it

Every fetched byte stalls the processor for a cycle. When the last bit is due the sample either starts
over or ends, with an interrupt request if the control register asks for it; the last bit itself is
played only in a sample that starts over.
-/

namespace Famicom

/-- Cycles per bit, by the low four bits of the control register. -/
def samplePeriods : Vector Nat 16 :=
  #v[428, 380, 340, 320, 286, 254, 226, 214, 190, 160, 142, 128, 106, 85, 72, 54]

/-- The sample voice. -/
structure SampleVoice where
  control : UInt8 := 0
  /-- The seven-bit level that the deltas move. -/
  dac : UInt8 := 0
  addressCode : UInt8 := 0
  lengthCode : UInt8 := 0
  enabled : Bool := false
  /-- Where the next byte is fetched. -/
  address : UInt16 := 0
  /-- Bits left to play. -/
  remaining : Nat := 0
  /-- The byte being played. -/
  byte : UInt8 := 0
  /-- The end of a sample has asked for an interrupt. -/
  raised : Bool := false
  /-- Cycles per bit, latched with the control register; 0 until that is written. -/
  period : Nat := 0
  oscillator : Oscillator := {}
  /-- The last output, before scaling. -/
  level : Int := 0
  deriving Inhabited

namespace SampleVoice

/-- The sample starts over at its end. -/
def loops (v : SampleVoice) : Bool := v.control &&& 0x40 != 0

/-- The end of the sample asks for an interrupt. -/
def requests (v : SampleVoice) : Bool := v.control &&& 0x80 != 0

/-- The first address of the sample. -/
def start (v : SampleVoice) : UInt16 := 0xC000 + v.addressCode.toUInt16 * 64

/-- The bits of the sample. -/
def bits (v : SampleVoice) : Nat := (v.lengthCode.toNat * 16 + 1) * 8

/-- Loop, request and rate. Without a request the mark of an earlier one goes. -/
def writeControl (v : SampleVoice) (value : UInt8) : SampleVoice :=
  { v with
    control := value
    period := periodOf samplePeriods value
    raised := v.raised && value &&& 0x80 != 0 }

/-- Sets the level directly; the output jumps by the difference. -/
def writeLevel (v : SampleVoice) (value : UInt8) : SampleVoice :=
  let dac := value &&& 0x7F
  { v with dac, level := v.level + ((dac.toNat : Int) - v.dac.toNat) * 256 }

/-- The code of the first address. -/
def writeAddress (v : SampleVoice) (value : UInt8) : SampleVoice := { v with addressCode := value }

/-- The code of the length. -/
def writeLength (v : SampleVoice) (value : UInt8) : SampleVoice := { v with lengthCode := value }

/-- Goes back to the first bit. -/
def restart (v : SampleVoice) : SampleVoice :=
  { v with address := v.start, remaining := v.bits, raised := false }

/-- Switches the voice. On starts a sample unless one is being played, off drops what is left; the mark of
a request goes. -/
def setEnabled (v : SampleVoice) (enabled : Bool) : SampleVoice :=
  let v := { v with enabled }
  let v := if !enabled then { v with remaining := 0 } else if v.remaining = 0 then v.restart else v
  { v with raised := false }

/-- The address after one: the ROM's space repeats. -/
def following (address : UInt16) : UInt16 := if address = 0xFFFF then 0x8000 else address + 1

/-- Fetches the next byte, for a cycle of the processor's. -/
def fetch (v : SampleVoice) (cpu : Cpu) (cart : Cartridge) : SampleVoice × Cpu :=
  ({ v with byte := cpu.peek cart v.address, address := following v.address }, cpu.charge 1)

/-- Moves the level by a bit, within its seven bits. -/
def delta (v : SampleVoice) (up : Bool) : SampleVoice :=
  if up then
    if v.dac < 0x7D then { v with dac := v.dac + 2, level := v.level + 512 } else v
  else
    if v.dac > 1 then { v with dac := v.dac - 2, level := v.level - 512 } else v

/-- Plays one bit. -/
def play (v : SampleVoice) (cpu : Cpu) (cart : Cartridge) : SampleVoice × Cpu :=
  let index := 7 - v.remaining % 8
  let (v, cpu) := if v.remaining % 8 = 0 then v.fetch cpu cart else (v, cpu)
  let up := v.byte.toNat.testBit index
  if v.remaining = 1 then
    if v.loops then (v.restart.delta up, cpu)
    else
      let v := { v with remaining := 0, enabled := false }
      if v.requests then ({ v with raised := true }, cpu.irq cart) else (v, cpu)
  else ({ v with remaining := v.remaining - 1 }.delta up, cpu)

/-- Plays several bits. -/
def playMany (v : SampleVoice) (cpu : Cpu) (cart : Cartridge) : Nat → SampleVoice × Cpu
  | 0 => (v, cpu)
  | n + 1 =>
    let (v, cpu) := v.play cpu cart
    playMany v cpu cart n

/-- The output: three quarters of the level. -/
def output (v : SampleVoice) : Int := v.level * 3 / 4

/-- The next sample; a sample that ends takes no more bits than are left. -/
def sample (v : SampleVoice) (pace : Pace) (cycles : Float32) (cpu : Cpu) (cart : Cartridge) :
    Int × SampleVoice × Cpu :=
  let v := { v with level := fade v.level }
  if v.remaining = 0 then (v.output, v, cpu) else
    let limit := if v.loops then none else some v.remaining
    let (steps, oscillator) := pace v.oscillator cycles v.period limit
    let (v, cpu) := playMany { v with oscillator } cpu cart steps
    (v.output, v, cpu)

end SampleVoice

end Famicom
