import Famicom.Memory
import Famicom.Page

/-!
A cartridge: program ROM, pattern ROM or pattern RAM, battery RAM and the facts of its header.

Reading past the end of a ROM starts over, so a ROM smaller than its window repeats in it; an absent
memory reads as zero. Only battery RAM and pattern RAM can be written.
-/

namespace Famicom

/-- How the board wires the two internal nametables. -/
inductive Mirroring where
  | horizontal | vertical
  deriving DecidableEq, Repr, Inhabited

/-- A cartridge as it sits in the console. -/
structure Cartridge where
  prg : Array UInt8 := #[]
  /-- Pattern ROM; empty on boards with pattern RAM. -/
  chr : Array UInt8 := #[]
  sram : Memory 0x2000 := Memory.zero 0x2000
  /-- Pattern RAM, on boards without pattern ROM. -/
  vram : Option (Memory 0x2000) := none
  mapper : UInt8 := 0
  mirroring : Mirroring := .horizontal
  battery : Bool := false
  trainer : Bool := false
  fourScreen : Bool := false
  versus : Bool := false
  name : String := ""
  /-- Remarks on a dirty image, in order. -/
  notes : List String := []
  deriving Inhabited

namespace Cartridge

/-- The slot without a cartridge. -/
def empty : Cartridge := {}

/-- Bytes in a 16KB program bank. -/
def prgBankSize : Nat := 0x4000

/-- Bytes in an 8KB pattern bank. -/
def chrBankSize : Nat := 0x2000

/-- Number of 16KB program banks. -/
def prgBanks (c : Cartridge) : Nat := c.prg.size / prgBankSize

/-- Number of 8KB pattern ROM banks; none on boards with pattern RAM. -/
def chrBanks (c : Cartridge) : Nat := c.chr.size / chrBankSize

/-- Whether the cartridge has pattern ROM. -/
def hasChr (c : Cartridge) : Bool := c.chr.size != 0

/-- The header's features as one byte: battery, trainer, four-screen and versus from bit 0 up. -/
def flags (c : Cartridge) : UInt8 :=
  (if c.battery then 1 else 0) ||| (if c.trainer then 2 else 0) |||
    (if c.fourScreen then 4 else 0) ||| (if c.versus then 8 else 0)

/-- A byte of a ROM that repeats past its end and is zero when absent. -/
def romByte (rom : Array UInt8) (index : Nat) : UInt8 := rom.getD (index % rom.size) 0

/-- A byte of one of the cartridge's memories. -/
def read (c : Cartridge) (region : Region) (index : Nat) : UInt8 :=
  match region with
  | .prg => romByte c.prg index
  | .chr => romByte c.chr index
  | .sram => c.sram.read index
  | .vram => match c.vram with
    | some v => v.read index
    | none => 0
  | _ => 0

/-- Stores a byte in one of the cartridge's memories; ROM and absent memories stay as they are. -/
def write (c : Cartridge) (region : Region) (index : Nat) (value : UInt8) : Cartridge :=
  match region with
  | .sram => { c with sram := c.sram.write index value }
  | .vram => { c with vram := c.vram.map (·.write index value) }
  | _ => c

/-- The name as listings show it: at most twenty characters, a longer one cut and dotted. -/
def displayName (c : Cartridge) : String :=
  if c.name.length > 20 then String.ofList (c.name.toList.take 17) ++ "..." else c.name

/-- One-line summary such as `smb [0] 32k/8k V`, with marks for battery, trainer and four screens. -/
def info (c : Cartridge) : String :=
  let marks := (if c.battery then "B" else "") ++ (if c.trainer then "T" else "") ++
    (if c.fourScreen then "4" else "")
  let wiring := match c.mirroring with
    | .vertical => "V"
    | .horizontal => "H"
  s!"{c.displayName} [{c.mapper.toNat}] {c.prgBanks * 16}k/{c.chrBanks * 8}k {wiring}" ++ marks

end Cartridge

end Famicom
