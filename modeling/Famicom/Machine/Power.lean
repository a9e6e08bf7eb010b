import Famicom.Machine

/-!
Plugging in cartridges and resetting. A hard reset fills memories as they wake up: RAM with zeros, pattern
RAM and sprite memory with garbage. Every reset puts the windows into their first position and lets the board
start over.
-/

namespace Famicom.Machine

/-- Soft keeps the memories, hard does not. -/
inductive Reset where
  | soft | hard
  deriving DecidableEq, Repr, Inhabited

/-- The windows of pattern memory as every cartridge starts. -/
def initialPicturePages (cart : Cartridge) (pages : PageTable) : PageTable :=
  let pages := pages.mapChr cart.chr.size 8 0 0
  let pages :=
    if cart.fourScreen then pages.mirror 0 1 2 3
    else match cart.mirroring with
      | .vertical => pages.mirror 0 1 0 1
      | .horizontal => pages.mirror 0 0 1 1
  if cart.hasChr then pages else pages.mapVram

/-- The windows of program memory as every cartridge starts: the first bank and the last. -/
def initialProgramPages (cart : Cartridge) (pages : PageTable) : PageTable :=
  (pages.mapPrg cart.prg.size 16 0x8000 0).mapPrg cart.prg.size 16 0xC000 lastBank

/-- Puts all windows into their first position. -/
def resetPages (m : Machine) : Machine :=
  { m with
    cpu.pages := initialProgramPages m.cart m.cpu.pages
    ppu.pages := initialPicturePages m.cart m.ppu.pages }

/-- Clears RAM and fills pattern RAM with garbage. -/
def scramble (m : Machine) : Machine :=
  let m := { m with cpu.ram := Memory.zero 0x800 }
  if m.cart.vram.isNone then m
  else
    let garbage := m.prng.bytes 0x2000
    { m with cart := { m.cart with vram := some (Memory.ofList 0x2000 garbage.1) }, prng := garbage.2 }

/-- Resets a machine with a cartridge. -/
def reset (m : Machine) (kind : Reset) : Machine :=
  if !m.hasCartridge then m else
    let hard := kind = .hard
    let m := if hard then m.scramble else m
    let (ppu, prng) := m.ppu.reset hard m.prng
    let m := { m with sound := m.sound.reset, ppu, prng }.resetPages
    let m := m.withBoard (·.init m.view)
    let m := { m with
      cpu := m.cpu.reset m.cart
      scanline := 241
      lineCycles := 0
      timer := { m.timer with left := FrameTimer.period, raised := false } }
    m.note (if hard then "NES powered on" else "NES reset")

/-- The windows of the processor with battery RAM in place. -/
def poweredPages : PageTable :=
  (PageTable.blank.put 0 ⟨.ram, 0⟩ |>.put 6 ⟨.sram, 0⟩).put 7 ⟨.sram, 0x1000⟩

/-- Plugs in a cartridge and powers the machine on. A cartridge whose board is unknown is left out, with the
reason, and nothing but the log changes. -/
def insert (m : Machine) (cart : Cartridge) : Except String Unit × Machine :=
  match Board.ofNumber? cart.mapper with
  | none =>
    let reason := Mapper.rejection cart.mapper
    (.error reason, m.note s!"ROM rejected: {reason}")
  | some board =>
    let m := { m with
      log := m.log.pushAll cart.notes
      cpu := { pages := poweredPages }
      ppu := { Ppu.powerOn with drawSprites := m.ppu.drawSprites }
      cart := { cart with notes := [] }
      sound := m.sound.setChip board.soundChip
      board := some board }
    let m := m.note s!"ROM loaded: {m.info}"
    let m := match m.sound.chip with
      | some chip => m.note s!"{chip.name} sound enabled"
      | none => m
    (.ok (), m.reset .hard)

/-- A battery RAM image that does not fit. -/
def sramTooLong (size : Nat) : String :=
  s!"SRAM image is {size} bytes, expected at most {0x2000}"

/-- Loads battery RAM; a short image leaves the rest as it is. -/
def loadBattery (m : Machine) (image : List UInt8) : Except String Machine :=
  if image.length > 0x2000 then .error (sramTooLong image.length)
  else .ok { m with cart := { m.cart with sram := m.cart.sram.overlay image } }

end Famicom.Machine
