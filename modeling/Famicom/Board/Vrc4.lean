import Famicom.Board.Vrc
import Famicom.Memory

/-!
VRC2 and VRC4. The chips differ in which address lines reach them, so the same registers answer at
different addresses: boards 21 and 25 share one decoding, 22 and 23 have their own.

    8KB program banks at $8000 (or $C000 while swapped) and $A000
    1KB pattern banks, each written as a low and a high nybble (one byte on board 22)
-/

namespace Famicom

/-- The wirings of the VRC2 and VRC4. -/
inductive Vrc4Wiring where
  | board21 | board22 | board23 | board25
  deriving DecidableEq, Repr, Inhabited

/-- Registers of a VRC2 or VRC4. -/
structure Vrc4 where
  wiring : Vrc4Wiring
  /-- The first program register moves $C000 instead of $8000. -/
  swapped : Bool := false
  low : Memory 8 := Memory.zero 8
  high : Memory 8 := Memory.zero 8
  line : VrcCounter := {}
  deriving Inhabited

namespace Vrc4

/-- The mapper number. -/
def number (s : Vrc4) : UInt8 :=
  match s.wiring with
  | .board21 => 21
  | .board22 => 22
  | .board23 => 23
  | .board25 => 25

/-- A pattern register: which 1KB bank, and whether its high nybble. -/
structure ChrRegister where
  window : Nat
  high : Bool
  deriving DecidableEq, Repr, Inhabited

/-- The first of the two banks whose registers lie in the 4KB block of an address from $B000 up. -/
def firstBank (address : UInt16) : Nat := 2 * (address.toNat / 0x1000 - 0xB)

/-- The pattern registers of boards 21 and 25. -/
def chrRegister4 (address : UInt16) : Option ChrRegister :=
  let first := firstBank address
  match address.toNat % 0x1000 with
  | 0x000 => some ⟨first, false⟩
  | 0x002 | 0x040 => some ⟨first, true⟩
  | 0x001 | 0x004 | 0x080 => some ⟨first + 1, false⟩
  | 0x003 | 0x006 | 0x0C0 => some ⟨first + 1, true⟩
  | _ => none

/-- The pattern registers of board 23. -/
def chrRegister2 (address : UInt16) : Option ChrRegister :=
  let first := firstBank address
  match address.toNat % 0x1000 with
  | 0x000 => some ⟨first, false⟩
  | 0x001 | 0x004 => some ⟨first, true⟩
  | 0x002 | 0x008 => some ⟨first + 1, false⟩
  | 0x003 | 0x00C => some ⟨first + 1, true⟩
  | _ => none

/-- Writes one nybble of a pattern bank and shows the bank. -/
def writeChr (s : Vrc4) (register : ChrRegister) (value : UInt8) : Vrc4 × List Signal :=
  let nybble := value &&& 0x0F
  let s := if register.high then { s with high := s.high.write register.window nybble }
    else { s with low := s.low.write register.window nybble }
  let page : Int := 16 * bank (s.high.read register.window) + bank (s.low.read register.window)
  (s, [.chr 1 (UInt16.ofNat (register.window * 0x400)) page])

/-- Writes a pattern register, if the address is one. -/
def writeChr? (s : Vrc4) (register : Option ChrRegister) (value : UInt8) : Vrc4 × List Signal :=
  match register with
  | some p => s.writeChr p value
  | none => (s, [])

/-- A write to boards 21 and 25. -/
def write4 (s : Vrc4) (address : UInt16) (value : UInt8) : Vrc4 × List Signal :=
  if 0xB000 ≤ address && address ≤ 0xEFFF then s.writeChr? (chrRegister4 address) value
  else match address.toNat with
    | 0x8000 => (s, [.prg 8 (if s.swapped then 0xC000 else 0x8000) (bank value)])
    | 0x9000 => (s, [.vrcWiring value])
    | 0x9002 => ({ s with swapped := value &&& 2 != 0 }, [])
    | 0xA000 => (s, [.prg 8 0xA000 (bank value)])
    | 0xF000 => ({ s with line := s.line.setLow value }, [])
    | 0xF002 | 0xF040 => ({ s with line := s.line.setHigh value }, [])
    | 0xF004 | 0xF001 | 0xF080 => ({ s with line := s.line.start value }, [])
    | 0xF006 | 0xF003 | 0xF0C0 => ({ s with line := s.line.acknowledge }, [])
    | _ => (s, [])

/-- A write to board 22, which has no line counter and shifts its pattern banks by one. -/
def write22 (s : Vrc4) (address : UInt16) (value : UInt8) : Vrc4 × List Signal :=
  let block := address >>> 12
  if block = 0x8 then (s, [.prg 8 0x8000 (bank value)])
  else if block = 0xA then (s, [.prg 8 0xA000 (bank value)])
  else if block = 0x9 then
    match (value &&& 3).toNat with
    | 0 => (s, [.vertical])
    | 1 => (s, [.horizontal])
    | 2 => (s, [.single 1])
    | _ => (s, [.single 0])
  else if 0xB ≤ block && block ≤ 0xE then
    (s, [.chr 1 ((((block - 0xB) <<< 1) + (address &&& 1)) <<< 10) (bank (value >>> 1))])
  else (s, [])

/-- A write to board 23. -/
def write23 (s : Vrc4) (address : UInt16) (value : UInt8) : Vrc4 × List Signal :=
  if 0xB000 ≤ address && address ≤ 0xEFFF then s.writeChr? (chrRegister2 address) value
  else match address.toNat with
    | 0x8000 | 0x8FFF => (s, [.prg 8 0x8000 (bank value)])
    | 0xA000 | 0xAFFF => (s, [.prg 8 0xA000 (bank value)])
    | 0x9000 | 0x9004 | 0x9008 => (s, [.vrcWiring value])
    | 0xF000 => ({ s with line := s.line.setLow value }, [])
    | 0xF004 => ({ s with line := s.line.setHigh value }, [])
    | 0xF008 => ({ s with line := s.line.start value }, [])
    | 0xF00C => ({ s with line := s.line.acknowledge }, [])
    | _ => (s, [])

/-- One write. -/
def write (s : Vrc4) (address : UInt16) (value : UInt8) : Vrc4 × List Signal :=
  match s.wiring with
  | .board22 => s.write22 address value
  | .board23 => s.write23 address value
  | _ => s.write4 address value

/-- Power-on clears the line counter, except on board 25. -/
def init (s : Vrc4) : Vrc4 :=
  match s.wiring with
  | .board25 => s
  | _ => { s with line := {} }

/-- The end of a line. -/
def hblank (s : Vrc4) : Vrc4 × List Signal :=
  match s.wiring with
  | .board22 => (s, [])
  | _ =>
    let (line, signals) := s.line.tick
    ({ s with line }, signals)

/-- What a snapshot keeps: the line counter, on board 21 only. -/
def save (s : Vrc4) : List UInt8 :=
  match s.wiring with
  | .board21 => s.line.save
  | _ => []

/-- Takes a snapshot's bytes over. -/
def load (s : Vrc4) (bytes : Nat → UInt8) : Vrc4 :=
  match s.wiring with
  | .board21 => { s with line := s.line.load bytes }
  | _ => s

end Vrc4

end Famicom
