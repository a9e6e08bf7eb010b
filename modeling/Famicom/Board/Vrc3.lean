import Famicom.Board.Signal

/-!
VRC3: a sixteen-bit counter of CPU cycles, loaded a register at a time, which interrupts when it carries out
and then stops.
-/

namespace Famicom

/-- The cycle counter of the VRC3. -/
structure Vrc3 where
  enabled : Bool := false
  counter : UInt32 := 0
  deriving DecidableEq, Repr, Inhabited

namespace Vrc3

/-- CPU cycles that the counter takes a line for. -/
def lineCycles : UInt32 := 114

/-- One write: four registers load the counter from the bottom up. -/
def write (s : Vrc3) (address : UInt16) (value : UInt8) : Vrc3 × List Signal :=
  let v := value.toUInt32
  match (address >>> 12).toNat with
  | 0x8 => ({ s with counter := (s.counter &&& 0xFFF0) ||| v }, [])
  | 0x9 => ({ s with counter := (v <<< 4) ||| (s.counter &&& 0xFF0F) }, [])
  | 0xA => ({ s with counter := (v <<< 8) ||| (s.counter &&& 0xF0FF) }, [])
  | 0xB => ({ s with counter := (v <<< 12) ||| (s.counter &&& 0x0FFF) }, [])
  | 0xC => ({ s with enabled := value &&& 2 != 0 }, [])
  | 0xF => (s, [.prg 16 0x8000 (bank value)])
  | _ => (s, [])

/-- The end of a line: a carry out of sixteen bits interrupts and stops the counter. -/
def hblank (s : Vrc3) : Vrc3 × List Signal :=
  if !s.enabled then (s, [])
  else
    let counter := s.counter + lineCycles
    if counter &&& 0x10000 != 0 then (⟨false, counter &&& 0xFFFF⟩, [.irq])
    else ({ s with counter }, [])

end Vrc3

end Famicom
