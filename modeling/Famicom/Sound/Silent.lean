import Famicom.AddressRange

/-!
The sound chips that stay silent. They take their registers, and no sample is made of them.

    FDS    $4040-$4092   a register each
    VRC7   $9010         chooses one of 64 registers
           $9030         writes the chosen one
-/

namespace Famicom

/-- The sound part of an FDS. -/
structure FdsSound where
  registers : Vector UInt8 0x53 := .replicate 0x53 0
  deriving DecidableEq, Repr, Inhabited

namespace FdsSound

/-- The addresses it takes writes at. -/
def writeRanges : List AddressRange := [(0x4040, 0x4092)]

/-- A written register. -/
def write (s : FdsSound) (address : UInt16) (value : UInt8) : FdsSound :=
  { s with registers := s.registers.setIfInBounds (address - 0x4040).toNat value }

/-- Clears the registers. -/
def reset : FdsSound := {}

end FdsSound

/-- The sound part of a VRC7. -/
structure Vrc7Sound where
  /-- The register that is written next; it has six bits. -/
  select : UInt8 := 0
  registers : Vector UInt8 0x40 := .replicate 0x40 0
  deriving DecidableEq, Repr, Inhabited

namespace Vrc7Sound

/-- The addresses it takes writes at. -/
def writeRanges : List AddressRange := [(0x9010, 0x9010), (0x9030, 0x9030)]

/-- A written register. -/
def write (s : Vrc7Sound) (address : UInt16) (value : UInt8) : Vrc7Sound :=
  if address = 0x9010 then { s with select := value &&& 0x3F }
  else { s with registers := s.registers.setIfInBounds s.select.toNat value }

/-- Clears the registers. -/
def reset : Vrc7Sound := {}

end Vrc7Sound

end Famicom
