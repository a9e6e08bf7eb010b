/-!
The sound hardware that a cartridge can bring along.
-/

namespace Famicom

/-- A sound chip on a cartridge. -/
inductive SoundChip where
  | mmc5 | vrc6 | fds | vrc7
  deriving DecidableEq, Repr, Inhabited

/-- The chip's name. -/
def SoundChip.name : SoundChip → String
  | .mmc5 => "MMC5"
  | .vrc6 => "VRC6"
  | .fds => "FDS"
  | .vrc7 => "VRC7"

end Famicom
