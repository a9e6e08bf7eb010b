import Famicom.Controllers
import Famicom.EventLog
import Famicom.FrameTimer
import Famicom.Mapper
import Famicom.Ppu
import Famicom.Sound

/-!
The console: everything that hangs on the bus, and the clockwork that drives it. This module says how the
parts are held together and how the wishes of a board are carried out.

    cpu ── bus ──┬── picture unit ── cartridge's patterns
                 ├── sound unit ──── cartridge's sound chip
                 ├── controllers
                 └── board ── signals ──▶ windows, interrupt, log
-/

namespace Famicom

/-- The console with what is plugged into it. -/
structure Machine where
  cpu : Cpu := {}
  ppu : Ppu := Ppu.powerOn
  sound : Sound := Sound.ofRates 44100 60
  cart : Cartridge := Cartridge.empty
  /-- The cartridge's board; none without a cartridge. -/
  board : Option Board := none
  pads : Controllers := Controllers.standard
  timer : FrameTimer := {}
  /-- The line being run; a frame begins in vertical blank after power-on. -/
  scanline : Int := 241
  /-- Processor cycles that the current line still has, or has had too many. -/
  lineCycles : Float32 := 0
  paused : Bool := false
  frames : Nat := 0
  prng : Xorshift := Xorshift.ofSeed Xorshift.defaultSeed
  log : EventLog := {}
  deriving Inhabited

namespace Machine

/-- Whether a cartridge is plugged in. -/
def hasCartridge (m : Machine) : Bool := m.board.isSome

/-- The board's name, its number and the cartridge's summary. -/
def info (m : Machine) : String :=
  if m.hasCartridge then
    s!"{Mapper.name m.cart.mapper} (mapper {m.cart.mapper.toNat}): {m.cart.info}"
  else "No ROM loaded"

/-- Writes into the log. -/
def note (m : Machine) (message : String) : Machine := { m with log := m.log.push message }

/-- Moves the picture unit's remarks into the log. -/
def drainNotes (m : Machine) : Machine :=
  if m.ppu.notes.isEmpty then m
  else { m with log := m.log.pushAll m.ppu.notes, ppu := { m.ppu with notes := [] } }

/-- Seeds the generator of power-on garbage. -/
def seed (m : Machine) (value : UInt32) : Machine := { m with prng := Xorshift.ofSeed value }

/-! ### The board's wishes -/

/-- What the board can see. -/
def view (m : Machine) : View :=
  { prgSize := m.cart.prg.size
    fourScreen := m.cart.fourScreen
    rendering := m.ppu.enabled
    scanline := m.scanline }

/-- Points a nametable window at a page that a value chooses: below E0 of pattern ROM where there is one,
else of pattern RAM or of the internal nametables. -/
def nametablePage (cart : Cartridge) (value : UInt8) : Page :=
  if value < 0xE0 && cart.hasChr then
    ⟨.chr, value.toNat % max (cart.chr.size / 0x400) 1 * 0x400⟩
  else if cart.vram.isSome then ⟨.vram, value.toNat % 8 * 0x400⟩
  else ⟨.nametable, value.toNat % 4 * 0x400⟩

/-- Carries out one wish. -/
def obey (m : Machine) (signal : Signal) : Machine :=
  match signal with
  | .prg kb address bank =>
    { m with cpu.pages := m.cpu.pages.mapPrg m.cart.prg.size kb address bank }
  | .chr kb address bank =>
    { m with ppu.pages := m.ppu.pages.mapChr m.cart.chr.size kb address bank }
  | .mirror a b c d => { m with ppu.pages := m.ppu.pages.mirror a b c d }
  | .nametable window value =>
    let page := nametablePage m.cart value
    { m with ppu.pages := (m.ppu.pages.put (8 + window % 4) page).repeatNametables }
  | .irq => { m with cpu := m.cpu.irq m.cart }
  | .log message => m.note message

/-- Carries out wishes in order. -/
def obeyAll (m : Machine) (signals : List Signal) : Machine := signals.foldl obey m

/-- Lets the board act, and carries out what it wishes. -/
def withBoard (m : Machine) (act : Board → Board × List Signal) : Machine :=
  match m.board with
  | none => m
  | some board =>
    let (board, signals) := act board
    { m with board := some board }.obeyAll signals

/-- A write straight to the board. -/
def boardWrite (m : Machine) (address : UInt16) (value : UInt8) : Machine :=
  m.withBoard (·.write m.view address value)

/-- The end of a line, for the board. -/
def boardHblank (m : Machine) (vblank : Bool) : Machine := m.withBoard (·.hblank m.view vblank)

/-- A drawn tile, for the board. -/
def boardDrawn (m : Machine) (base : UInt16) (tile : UInt8) : Machine :=
  let (ppu, board) := m.ppu.drawn m.board m.cart base tile
  { m with ppu, board }

end Machine

end Famicom
