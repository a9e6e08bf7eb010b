import Famicom.Sound.Chip
import Famicom.Sound.Mmc5
import Famicom.Sound.Silent
import Famicom.Sound.Vrc6

/-!
The sound chips of cartridges behind one interface. On the bus a chip's addresses come before the
board's.
-/

namespace Famicom

/-- A sound chip with its registers. -/
inductive Expansion where
  | mmc5 (s : Mmc5Sound)
  | vrc6 (s : Vrc6Sound)
  | fds (s : FdsSound)
  | vrc7 (s : Vrc7Sound)
  deriving Inhabited

namespace Expansion

/-- Which chip it is. -/
def chip : Expansion → SoundChip
  | .mmc5 _ => .mmc5
  | .vrc6 _ => .vrc6
  | .fds _ => .fds
  | .vrc7 _ => .vrc7

/-- The addresses that a chip takes writes at. -/
def writeRanges : Expansion → List AddressRange
  | .mmc5 _ => Mmc5Sound.writeRanges
  | .vrc6 _ => Vrc6Sound.writeRanges
  | .fds _ => FdsSound.writeRanges
  | .vrc7 _ => Vrc7Sound.writeRanges

/-- The addresses that a chip answers reads at. -/
def readRanges : Expansion → List AddressRange
  | .mmc5 _ => Mmc5Sound.readRanges
  | _ => []

/-- A written register. -/
def write (e : Expansion) (address : UInt16) (value : UInt8) : Expansion :=
  match e with
  | .mmc5 s => .mmc5 (s.write address value)
  | .vrc6 s => .vrc6 (s.write address value)
  | .fds s => .fds (s.write address value)
  | .vrc7 s => .vrc7 (s.write address value)

/-- A register that is read. -/
def read (e : Expansion) (address : UInt16) : UInt8 :=
  match e with
  | .mmc5 s => s.read address
  | _ => 0xFF

/-- Puts the registers into their state after a reset, for the given rates. -/
def reset (e : Expansion) (t : Timing) : Expansion :=
  match e with
  | .mmc5 s => .mmc5 (s.reset t)
  | .vrc6 s => .vrc6 (s.reset t)
  | .fds _ => .fds .reset
  | .vrc7 _ => .vrc7 .reset

/-- The next sample. -/
def sample (e : Expansion) (pace : ChipPaces) : Int × Expansion :=
  match e with
  | .mmc5 s => let (out, s) := s.sample pace; (out, .mmc5 s)
  | .vrc6 s => let (out, s) := s.sample pace; (out, .vrc6 s)
  | e => (0, e)

/-- A fresh chip. -/
def ofChip (chip : SoundChip) (t : Timing) : Expansion :=
  reset (match chip with
    | .mmc5 => .mmc5 {}
    | .vrc6 => .vrc6 {}
    | .fds => .fds {}
    | .vrc7 => .vrc7 {}) t

end Expansion

end Famicom
