import Famicom.Snapshot.Block
import Famicom.Snapshot.Windows

/-!
Snapshots of a machine.

    BASR  processor and picture unit        SOUN  the sound unit's registers
    VRAM  pattern RAM, if there is any      MPRD  windows and board, unless the board is number 0
    SRAM  battery RAM, unless all zero

Blocks are taken over in the order in which they stand; unknown ones are noted and passed over. A
snapshot without battery RAM clears it. Nothing changes when the container is broken.
-/

namespace Famicom

namespace Tag

/-- Processor and picture unit. -/
def base : Tag := #v[0x42, 0x41, 0x53, 0x52]

/-- Pattern RAM. -/
def vram : Tag := #v[0x56, 0x52, 0x41, 0x4D]

/-- Battery RAM. -/
def sram : Tag := #v[0x53, 0x52, 0x41, 0x4D]

/-- The sound unit's registers. -/
def sound : Tag := #v[0x53, 0x4F, 0x55, 0x4E]

/-- Windows and board. -/
def board : Tag := #v[0x4D, 0x50, 0x52, 0x44]

/-- Controllers; known, but nothing is kept in it. -/
def controllers : Tag := #v[0x43, 0x4E, 0x54, 0x52]

end Tag

namespace Snapshot

/-- The block of battery RAM, unless it is all zero; the body's first byte marks it as present. -/
def sramBlocks (cart : Cartridge) : List Block :=
  if cart.sram.toList.any (· != 0) then [⟨.sram, 1 :: cart.sram.toList⟩] else []

/-- The blocks of a machine's snapshot. -/
def blocks (m : Machine) : List Block :=
  [⟨.base, baseBody m⟩] ++
    (match m.cart.vram with
      | some vram => [⟨.vram, vram.toList⟩]
      | none => []) ++
    sramBlocks m.cart ++ [⟨.sound, m.sound.registers⟩] ++
    (if m.cart.mapper = 0 then [] else [⟨.board, windowsBody m⟩])

/-- Overlays pattern RAM. -/
def restoreVram (cart : Cartridge) (body : List UInt8) : Cartridge :=
  { cart with vram := cart.vram.map (·.overlay body) }

/-- Overlays battery RAM, behind the mark. -/
def restoreSram (cart : Cartridge) (body : List UInt8) : Cartridge :=
  { cart with sram := cart.sram.overlay (body.drop 1) }

/-- Writes the sound unit's registers again. -/
def restoreSound (s : Sound) (body : List UInt8) : Sound := s.writeAll fun n => body.getD n 0

/-- Takes one block over. -/
def restoreBlock (m : Machine) (b : Block) : Machine :=
  if b.tag = .base then restoreBase m b.body
  else if b.tag = .vram then { m with cart := restoreVram m.cart b.body }
  else if b.tag = .sram then { m with cart := restoreSram m.cart b.body }
  else if b.tag = .board then restoreWindows m b.body
  else if b.tag = .controllers then m
  else if b.tag = .sound then { m with sound := restoreSound m.sound b.body }
  else m.note s!"unknown SNSS block {b.tag.name} skipped"

/-- Takes blocks over in order. -/
def restoreBlocks (m : Machine) (blocks : List Block) : Machine :=
  let m := if blocks.any (·.tag = .sram) then m
    else { m with cart := { m.cart with sram := Memory.zero 0x2000 } }
  (blocks.foldl restoreBlock m).note s!"state loaded ({blocks.length} blocks)"

end Snapshot

namespace Machine

/-- A snapshot of the machine. -/
def save (m : Machine) : List UInt8 := Block.encodeAll (Snapshot.blocks m)

/-- Takes a snapshot over: the outcome, and the machine afterwards. -/
def loadSnapshot (m : Machine) (bytes : List UInt8) : Except SnapshotError Unit × Machine :=
  if !m.hasCartridge then (.error .noCartridge, m)
  else match Block.decodeAll bytes with
    | .error e => (.error e, m)
    | .ok blocks => (.ok (), Snapshot.restoreBlocks m blocks)

/-- The machine after a snapshot that it takes over. -/
def restore (m : Machine) (bytes : List UInt8) : Except SnapshotError Machine :=
  let (outcome, m) := m.loadSnapshot bytes
  outcome.map fun _ => m

end Machine

end Famicom
