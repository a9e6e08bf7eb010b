import Famicom.Machine.Power
import Famicom.Proofs.Image
import Famicom.Proofs.Operations
import Famicom.Snapshot

/-!
The windows of a powered machine. Once a cartridge that comes out of an image is plugged in, all windows
are laid out (`Layout.Powered`), and they stay so through resets, programs, frames, sound and snapshots.

    insert ─▶ Plugged ── reset ─▶ Powered ─┬─ reset ─────▶ Powered      windows from scratch
                                           ├─ moves ─────▶ Powered      one case per move
                                           └─ snapshot ──▶ Powered      one case per block
-/

namespace Famicom

/-! ### Events -/

/-- Something that happens to a console with a cartridge. -/
inductive Event where
  | reset (kind : Machine.Reset)
  | frame (draw : Bool)
  | execute (slice : Int)
  | read (address : UInt16)
  | write (address : UInt16) (value : UInt8)
  | samples (count : Nat)
  | restore (bytes : List UInt8)
  deriving Inhabited

/-- The machine after an event. -/
def Machine.after (m : Machine) : Event → Machine
  | .reset kind => m.reset kind
  | .frame draw => m.runFrame draw
  | .execute slice => (m.execute slice).2
  | .read address => (m.read address).2
  | .write address value => m.write address value
  | .samples count => (m.samples count).2
  | .restore bytes => (m.loadSnapshot bytes).2

/-- What becomes of a machine that is given a snapshot: either it is refused and stays as it is, or it takes all
blocks over. -/
theorem Machine.loadSnapshot_cases (m : Machine) (bytes : List UInt8) :
    (∃ e, m.loadSnapshot bytes = (.error e, m) ∧ m.restore bytes = .error e) ∨
      ∃ blocks, m.hasCartridge = true ∧ Block.decodeAll bytes = .ok blocks ∧
        m.loadSnapshot bytes = (.ok (), Snapshot.restoreBlocks m blocks) ∧
        m.restore bytes = .ok (Snapshot.restoreBlocks m blocks) := by
  unfold restore loadSnapshot
  cases m.hasCartridge with
  | false => exact Or.inl ⟨_, rfl, rfl⟩
  | true =>
    cases Block.decodeAll bytes with
    | error e => exact Or.inl ⟨e, rfl, rfl⟩
    | ok blocks => exact Or.inr ⟨blocks, rfl, rfl, rfl, rfl⟩

/-- A console with a cartridge takes over whatever can be read. -/
theorem Machine.restore_eq {m : Machine} {bytes : List UInt8} {blocks : List Block} (hslot : m.hasCartridge = true)
    (hblocks : Block.decodeAll bytes = .ok blocks) : m.restore bytes = .ok (Snapshot.restoreBlocks m blocks) := by
  simp [restore, loadSnapshot, hslot, hblocks, Except.map]

/-- What has been restored had a cartridge and was read. -/
theorem Machine.of_restore {m n : Machine} {bytes : List UInt8} (h : m.restore bytes = .ok n) :
    m.hasCartridge = true ∧ ∃ blocks, Block.decodeAll bytes = .ok blocks ∧ Snapshot.restoreBlocks m blocks = n := by
  rcases m.loadSnapshot_cases bytes with ⟨e, -, herror⟩ | ⟨blocks, hslot, hblocks, -, hok⟩
  · rw [herror] at h
    cases h
  · rw [hok] at h
    exact ⟨hslot, blocks, hblocks, Except.ok.inj h⟩

/-! ### Layouts of a plugged-in cartridge -/

/-- The layout belongs to the cartridge, its board and its chip are there, and the low windows are laid
out. -/
structure Layout.Plugged (cart : Cartridge) (l : Layout) : Prop where
  rom : l.rom = { cart with notes := [] }.rom
  board : l.board = some cart.mapper
  chip : l.chip = (Board.ofNumber? cart.mapper).bind Board.soundChip
  low : LowWindows cart.prg.size l.cpu

/-- All windows are laid out, and the level of the sample voice has seven bits. -/
structure Layout.Powered (cart : Cartridge) (l : Layout) : Prop extends Layout.Plugged cart l where
  banks : ∀ k < 4, ShowsBank cart.prg.size l.cpu (8 + 2 * k)
  picture : PictureWindows cart.mapper cart.chr.size l.ppu
  level : l.level < 0x80

/-- The layout after the windows have been put into their first position. -/
def Layout.fresh (l : Layout) : Layout :=
  { l with
    cpu := Machine.initialProgramPages l.rom l.cpu
    ppu := Machine.initialPicturePages l.rom l.ppu
    level := 0 }

namespace Layout

variable {cart : Cartridge} {l l' : Layout}

theorem Plugged.prgSize (h : Plugged cart l) : l.rom.prg.size = cart.prg.size := by rw [h.rom]; rfl

theorem Plugged.chrSize (h : Plugged cart l) : l.rom.chr.size = cart.chr.size := by rw [h.rom]; rfl

theorem Plugged.vram (h : Plugged cart l) : l.rom.vram.isSome = cart.vram.isSome := by
  rw [h.rom]
  simp [Cartridge.rom]

theorem Plugged.hasCartridge {m : Machine} (h : Plugged cart m.layout) : m.hasCartridge = true := by
  obtain ⟨b, hb, -⟩ := Option.map_eq_some_iff.mp h.board
  simp [Machine.hasCartridge, hb]

theorem Powered.program (h : Powered cart l) : ProgramWindows cart.prg.size l.cpu := ⟨h.low, h.banks⟩

/-- What a nametable window may be pointed at by a value. -/
theorem Plugged.showsTable (hw : cart.WellFormed) (h : Plugged cart l) (hmapper : cart.mapper = 19)
    (value : UInt8) : ShowsTable cart.mapper cart.chr.size (Machine.nametablePage l.rom value) := by
  have hchr : l.rom.hasChr = true ↔ cart.chr.size ≠ 0 := by simp [Cartridge.hasChr, h.chrSize]
  unfold Machine.nametablePage
  split_ifs with hrom hram
  · obtain ⟨n, -, hn⟩ := hw.chr
    have hsome := hchr.mp (by simpa using (Bool.and_eq_true _ _ ▸ hrom).2)
    refine Or.inr ⟨hmapper, Or.inl ⟨_, rfl, ?_⟩⟩
    rw [h.chrSize]
    have hlt := Nat.mod_lt value.toNat (show 0 < max (cart.chr.size / 0x400) 1 by omega)
    omega
  · rw [h.vram] at hram
    exact Or.inr ⟨hmapper, Or.inr ⟨hw.vram.mp hram, value.toNat % 8, by omega, rfl⟩⟩
  · exact Or.inl ⟨value.toNat % 4, by omega, rfl⟩

/-- The first bank and the last one show whole 8KB banks in all four windows. -/
theorem initialProgram_windows {c : Cartridge} {t : PageTable} (h : LowWindows c.prg.size t) :
    ProgramWindows c.prg.size (Machine.initialProgramPages c t) := by
  have hfirst : FitsProgram 16 0x8000 := by decide
  have hlast : FitsProgram 16 0xC000 := by decide
  refine ⟨(h.mapPrg hfirst 0).mapPrg hlast lastBank, fun k hk => ?_⟩
  rcases (by omega : k < 2 ∨ 2 ≤ k) with hlo | hhi
  · refine ShowsBank.mapPrg hlast lastBank (by omega) (by omega)
      (shows_of_covered hfirst 0 (by omega) ?_ ?_)
    · show 8 ≤ 8 + 2 * k
      omega
    · show 8 + 2 * k < 12
      omega
  · refine shows_of_covered hlast lastBank (by omega) ?_ ?_
    · show 12 ≤ 8 + 2 * k
      omega
    · show 8 + 2 * k < 16
      omega

theorem initialPicture_windows {c : Cartridge} (hbanks : c.chr.size % 0x2000 = 0) (mapper : UInt8)
    (t : PageTable) : PictureWindows mapper c.chr.size (Machine.initialPicturePages c t) := by
  have hfirst : FitsPattern 8 0 := by decide
  -- however the nametables are wired, they lie in internal RAM
  have hwired : ∀ p : PageTable, (∃ a b a' b', p = (t.mapChr c.chr.size 8 0 0).mirror a b a' b') →
      PictureWindows mapper c.chr.size (if c.hasChr then p else p.mapVram) := by
    rintro p ⟨a, b, a', b', rfl⟩
    split
    case isTrue hchr =>
      refine windows_mirror (fun w hw => ?_) a b a' b'
      exact pattern_of_covered (by simpa [Cartridge.hasChr] using hchr) hbanks hfirst 0 hw
        (Nat.zero_le _) hw
    case isFalse hchr =>
      have h0 : c.chr.size = 0 := by simpa [Cartridge.hasChr] using hchr
      rw [h0]
      exact (tables_mirror a b a' b').mapVram
  unfold Machine.initialPicturePages
  refine hwired _ ?_
  split
  · exact ⟨0, 1, 2, 3, rfl⟩
  · split
    · exact ⟨0, 1, 0, 1, rfl⟩
    · exact ⟨0, 0, 1, 1, rfl⟩

/-- Putting the windows into their first position lays them out. -/
theorem Plugged.fresh (hw : cart.WellFormed) (h : Plugged cart l) : Powered cart l.fresh := by
  have hbanks : l.rom.chr.size % 0x2000 = 0 := by
    obtain ⟨n, -, hn⟩ := hw.chr
    rw [h.chrSize]
    omega
  have hcpu := initialProgram_windows (h.prgSize ▸ h.low)
  have hppu := initialPicture_windows hbanks cart.mapper l.ppu
  rw [h.prgSize] at hcpu
  rw [h.chrSize] at hppu
  unfold Layout.fresh
  exact ⟨⟨h.rom, h.board, h.chip, hcpu.toLowWindows⟩, hcpu.rom, hppu, (by decide : (0 : UInt8) < 0x80)⟩

theorem Powered.withProgram (h : Powered cart l) {t : PageTable} (ht : ProgramWindows cart.prg.size t) :
    Powered cart { l with cpu := t } :=
  ⟨⟨h.rom, h.board, h.chip, ht.toLowWindows⟩, ht.rom, h.picture, h.level⟩

theorem Powered.withPicture (h : Powered cart l) {t : PageTable}
    (ht : PictureWindows cart.mapper cart.chr.size t) : Powered cart { l with ppu := t } :=
  ⟨⟨h.rom, h.board, h.chip, h.low⟩, h.banks, ht, h.level⟩

theorem Powered.withPalette (h : Powered cart l) (palette : Memory 32) :
    Powered cart { l with palette } :=
  ⟨⟨h.rom, h.board, h.chip, h.low⟩, h.banks, h.picture, h.level⟩

theorem Powered.withLevel (h : Powered cart l) {level : UInt8} (hl : level < 0x80) :
    Powered cart { l with level } :=
  ⟨⟨h.rom, h.board, h.chip, h.low⟩, h.banks, h.picture, hl⟩

/-- Every move keeps the layout. -/
theorem Powered.step (hw : cart.WellFormed) (hs : Step l l') (h : Powered cart l) :
    Powered cart l' := by
  cases hs with
  | wish number signal plugged fits =>
    obtain rfl : number = cart.mapper := Option.some.inj (plugged.symm.trans h.board)
    cases signal with
    | prg kb address bank =>
      simp only [obey, h.prgSize]
      exact h.withProgram (h.program.mapPrg fits.2 bank)
    | chr kb address bank =>
      have hbanks : cart.chr.size % 0x2000 = 0 := by
        obtain ⟨n, -, hn⟩ := hw.chr
        omega
      simp only [obey, h.chrSize]
      exact h.withPicture (h.picture.mapChr hbanks fits.2 bank)
    | mirror a b c d => exact h.withPicture (windows_mirror h.picture.pattern a b c d)
    | nametable window value =>
      exact h.withPicture (h.picture.put_table (h.showsTable hw fits value) window)
    | irq => exact h
    | log message => exact h
  | backdrop value => exact h.withPalette _
  | colour index value inner => exact h.withPalette _
  | level value seven => exact h.withLevel (seven h.level)

theorem Powered.moves (hw : cart.WellFormed) (hm : Moves l l') (h : Powered cart l) : Powered cart l' :=
  hm.keeps (P := Powered cart) (fun hs h => h.step hw hs) h

end Layout

/-! ### Resets and insertion -/

namespace Machine

open Layout (Moves Plugged Powered)

theorem layout_scramble (m : Machine) : m.scramble.layout = m.layout := by
  simp only [scramble]
  split
  · simp only [layout]
  case isFalse h =>
    obtain ⟨v, hv⟩ := Option.ne_none_iff_exists'.mp (by simpa using h)
    simp only [layout, Cartridge.rom, hv, Option.map_some]

theorem picture_reset (p : Ppu) (hard : Bool) (prng : Xorshift) :
    (p.reset hard prng).1.pages = p.pages ∧ (p.reset hard prng).1.palette = p.palette := by
  unfold Ppu.reset
  generalize Xorshift.bytes = garbage
  split <;> simp only [Ppu.resetRegisters, and_self]

theorem layout_resetPages (m : Machine) : m.resetPages.layout =
    { m.layout with
      cpu := initialProgramPages m.cart.rom m.cpu.pages
      ppu := initialPicturePages m.cart.rom m.ppu.pages } := by
  simp only [resetPages, layout]
  rfl

/-- A reset puts the windows into place and lets the board start over. -/
theorem moves_reset (m : Machine) (kind : Reset) (h : m.hasCartridge = true) :
    Moves m.layout.fresh (m.reset kind).layout := by
  rw [reset, if_neg (by simp [h])]
  simp only
  generalize hm₁ : (if kind = .hard then m.scramble else m) = m₁
  have h₁ : m₁.layout = m.layout := by
    rw [← hm₁]
    split
    · exact m.layout_scramble
    · rfl
  obtain ⟨hpages, hpalette⟩ := picture_reset m₁.ppu (decide (kind = .hard)) m₁.prng
  generalize m₁.ppu.reset (decide (kind = .hard)) m₁.prng = r at hpages hpalette ⊢
  have h₂ : ({ m₁ with ppu := r.1, sound := m₁.sound.reset, prng := r.2 } : Machine).resetPages.layout =
      m.layout.fresh := by
    rw [layout_resetPages, ← h₁]
    simp only [layout, Layout.fresh, hpages, hpalette, m₁.sound.chip_reset, m₁.sound.dac_reset]
  generalize resetPages _ = m₂ at h₂ ⊢
  have h₃ := m₂.moves_withBoard (·.init m₂.view) (fun b => b.init_number _) fun b => b.init_fits _
  generalize m₂.withBoard _ = m₃ at h₃ ⊢
  rw [← h₂]
  refine h₃.trans (Moves.of_eq ?_)
  simp only [layout_note]
  simp only [layout, Cpu.reset]

/-- Plugging a cartridge in lays everything out but the windows that the reset puts into place. -/
theorem lowWindows_powered (prgSize : Nat) : LowWindows prgSize poweredPages := by
  refine ⟨rfl, fun w h0 h6 => ?_, Or.inl ⟨rfl, rfl⟩⟩
  rcases (by omega : w = 1 ∨ w = 2 ∨ w = 3 ∨ w = 4 ∨ w = 5) with rfl | rfl | rfl | rfl | rfl <;> rfl

/-- Every cartridge out of an image has a board. -/
theorem board_of_wellFormed {cart : Cartridge} (hw : cart.WellFormed) :
    ∃ b, Board.ofNumber? cart.mapper = some b := by
  have hall : Mapper.supported.all (fun n => (Board.ofNumber? n).isSome) = true := by decide
  have hsupported : cart.mapper ∈ Mapper.supported := by simpa [Mapper.isSupported] using hw.board
  exact Option.isSome_iff_exists.mp (List.all_eq_true.mp hall _ hsupported)

theorem reset_powered {cart : Cartridge} (hw : cart.WellFormed) {m : Machine} (kind : Reset)
    (h : m.layout.Plugged cart) : (m.reset kind).layout.Powered cart :=
  (h.fresh hw).moves hw (m.moves_reset kind h.hasCartridge)

/-- Plugging in a cartridge that comes out of an image succeeds, and ends with a reset. -/
theorem insert_plugged {cart : Cartridge} (hw : cart.WellFormed) (m : Machine) :
    ∃ n : Machine, m.insert cart = (.ok (), n.reset .hard) ∧ n.layout.Plugged cart ∧
      n.layout.palette = Ppu.powerOn.palette := by
  obtain ⟨b, hb⟩ := board_of_wellFormed hw
  have hnumber := Board.number_ofNumber? hb
  have hchip := m.sound.chip_setChip b.soundChip
  rw [insert, hb]
  simp only
  generalize m.sound.setChip b.soundChip = sound at hchip ⊢
  generalize hm₁ :
    ({ m with log := _, cpu := _, ppu := _, cart := _, sound, board := _ } : Machine) = m₁
  have h₁ : m₁.layout.Plugged cart ∧ m₁.layout.palette = Ppu.powerOn.palette := by
    rw [← hm₁]
    refine ⟨⟨rfl, ?_, ?_, lowWindows_powered _⟩, rfl⟩
    · simp only [layout, Option.map_some, hnumber]
    · simp only [layout, hchip, hb, Option.bind_some]
  refine ⟨_, rfl, ?_⟩
  split <;> simpa only [layout_note] using h₁

/-- Plugging in a cartridge that comes out of an image lays out all windows. -/
theorem insert_powered {cart : Cartridge} (hw : cart.WellFormed) (m : Machine) :
    (m.insert cart).2.layout.Powered cart := by
  obtain ⟨n, hn, hplugged, -⟩ := insert_plugged hw m
  have hreset := reset_powered hw .hard hplugged
  simpa only [hn] using hreset

end Machine

/-! ### Snapshots -/

namespace Snapshot

open Layout (Moves Powered)

variable {cart : Cartridge} {m : Machine}

/-- Taking the processor and the picture unit over lays the nametable windows out anew. -/
theorem restoreBase_powered (hw : cart.WellFormed) (h : m.layout.Powered cart) (body : List UInt8) :
    (restoreBase m body).layout.Powered cart := by
  simp only [restoreBase]
  generalize hm₁ :
    ({ m with cpu := restoreCpu m.cpu body, ppu := restorePpu m.ppu body } : Machine) = m₁
  have h₁ : m₁.layout.Powered cart := by
    rw [← hm₁]
    exact ((h.withPicture (windows_mirror h.picture.pattern _ _ _ _)).withPalette (paletteOf body))
  have h₂ := (((h₁.moves hw (m₁.moves_write 0x2000 (body.getD 7 0))).moves hw
    (Machine.moves_write _ 0x2001 (body.getD 8 0))).moves hw
    (Machine.moves_write _ 0x2006 (wordAt body addressOffset >>> 8).toUInt8)).moves hw
    (Machine.moves_write _ 0x2006 (wordAt body addressOffset).toUInt8)
  generalize Machine.write _ _ _ = m₂ at h₂ ⊢
  exact h₂

theorem restoreProgram_windows {prgSize : Nat} {t : PageTable} (h : ProgramWindows prgSize t)
    (body : List UInt8) : ProgramWindows prgSize (restoreProgram t prgSize body) := by
  unfold restoreProgram
  refine List.foldlRecOn _ _ h fun t h n hn => ?_
  exact h.mapPrg (fitsProgram_window (List.mem_range.mp hn)) _

theorem restorePatterns_windows {mapper : UInt8} {t : PageTable} {c : Cartridge}
    (hbanks : c.chr.size % 0x2000 = 0) (h : PictureWindows mapper c.chr.size t) (body : List UInt8) :
    PictureWindows mapper c.chr.size (restorePatterns t c body) := by
  simp only [restorePatterns]
  refine PictureWindows.repeatNametables ?_
  split
  case isTrue => exact List.foldlRecOn _ _ h fun t h n _ => h.mapChr hbanks (fitsPattern_one _) _
  case isFalse hchr =>
    have h0 : c.chr.size = 0 := by simpa [Cartridge.hasChr] using hchr
    rw [h0] at h ⊢
    exact h.toTableWindows.mapVram

theorem restoreWindows_powered (hw : cart.WellFormed) (h : m.layout.Powered cart) (body : List UInt8) :
    (restoreWindows m body).layout.Powered cart := by
  have hprg : m.cart.prg.size = cart.prg.size := h.prgSize
  have hchr : m.cart.chr.size = cart.chr.size := h.chrSize
  have hbanks : m.cart.chr.size % 0x2000 = 0 := by
    obtain ⟨n, -, hn⟩ := hw.chr
    omega
  have hcpu := restoreProgram_windows h.program body
  have hppu := restorePatterns_windows hbanks (hchr ▸ h.picture) body
  rw [hchr] at hppu
  have hlayout : (restoreWindows m body).layout =
      { m.layout with
        cpu := restoreProgram m.cpu.pages cart.prg.size body
        ppu := restorePatterns m.ppu.pages m.cart body } := by
    simp only [restoreWindows, Machine.layout, hprg, Option.map_map, Function.comp_def,
      Board.load_number]
  rw [hlayout]
  exact (h.withProgram hcpu).withPicture hppu

theorem restoreBlock_powered (hw : cart.WellFormed) (h : m.layout.Powered cart) (b : Block) :
    (restoreBlock m b).layout.Powered cart := by
  unfold restoreBlock
  split_ifs
  · exact restoreBase_powered hw h b.body
  · have hlayout : { m with cart := restoreVram m.cart b.body }.layout = m.layout := by
      simp only [Machine.layout, restoreVram, Cartridge.rom, Option.map_map, Function.comp_def]
    exact hlayout ▸ h
  · exact h
  · exact restoreWindows_powered hw h b.body
  · exact h
  · have hlayout : { m with sound := restoreSound m.sound b.body }.layout =
        { m.layout with level := (restoreSound m.sound b.body).sample.dac } := by
      simp only [Machine.layout, restoreSound, Sound.chip_writeAll]
    rw [hlayout]
    exact h.withLevel (m.sound.dac_writeAll_lt _)
  · rw [Machine.layout_note]
    exact h

theorem restoreBlocks_powered (hw : cart.WellFormed) (h : m.layout.Powered cart) (bs : List Block) :
    (restoreBlocks m bs).layout.Powered cart := by
  rw [restoreBlocks, Machine.layout_note]
  refine List.foldlRecOn (motive := fun m : Machine => m.layout.Powered cart) _ _ ?_
    fun m h b _ => restoreBlock_powered hw h b
  split
  · exact h
  · exact h

/-- Taking a snapshot over, whoever made it, leaves all windows laid out. -/
theorem restore_powered (hw : cart.WellFormed) (h : m.layout.Powered cart) {bytes : List UInt8}
    {m' : Machine} (hr : m.restore bytes = .ok m') : m'.layout.Powered cart := by
  obtain ⟨-, blocks, -, rfl⟩ := Machine.of_restore hr
  exact restoreBlocks_powered hw h blocks

/-- Refusing one does so too. -/
theorem loadSnapshot_powered (hw : cart.WellFormed) (h : m.layout.Powered cart) (bytes : List UInt8) :
    (m.loadSnapshot bytes).2.layout.Powered cart := by
  rcases m.loadSnapshot_cases bytes with ⟨e, hload, -⟩ | ⟨blocks, -, -, hload, -⟩
  · rw [hload]
    exact h
  · rw [hload]
    exact restoreBlocks_powered hw h blocks

end Snapshot

/-! ### Runs -/

open Snapshot in
/-- Whatever happens to a powered machine, its windows stay laid out. -/
theorem Machine.after_powered {cart : Cartridge} (hw : cart.WellFormed) {m : Machine}
    (h : m.layout.Powered cart) (e : Event) : (m.after e).layout.Powered cart := by
  cases e with
  | reset kind => exact reset_powered hw kind h.toPlugged
  | frame draw => exact h.moves hw (m.moves_runFrame draw)
  | execute slice => exact h.moves hw (m.moves_execute slice)
  | read address => exact (m.layout_read address).symm ▸ h
  | write address value => exact h.moves hw (m.moves_write address value)
  | samples count => exact h.moves hw (m.moves_samples count)
  | restore bytes => exact loadSnapshot_powered hw h bytes

theorem Machine.run_powered {cart : Cartridge} (hw : cart.WellFormed) {m : Machine}
    (h : m.layout.Powered cart) (events : List Event) : (events.foldl after m).layout.Powered cart := by
  induction events generalizing m with
  | nil => exact h
  | cons e events ih => exact ih (m.after_powered hw h e)

/-- The windows of every console in every state. Whatever cartridge comes out of an image is plugged in,
and whatever happens afterwards, the processor's windows and the picture unit's are laid out. -/
theorem Machine.windows_laid_out {bytes : Array UInt8} {name : String} {cart : Cartridge}
    (hparse : Image.parse bytes name = .ok cart) (m₀ : Machine) (events : List Event) :
    let m := events.foldl after (m₀.insert cart).2
    ProgramWindows cart.prg.size m.cpu.pages ∧
      PictureWindows cart.mapper cart.chr.size m.ppu.pages := by
  have hw := Image.parse_wellFormed hparse
  have h := run_powered hw (insert_powered hw m₀) events
  exact ⟨h.program, h.picture⟩

theorem Machine.windows_laid_out_mmc3 : ∃ cart, Image.parse (Image.blank 0x40) "" = .ok cart ∧
    let m :=
      [Event.frame true, .write 0x8001 7, .reset .soft].foldl after ((default : Machine).insert cart).2
    ProgramWindows cart.prg.size m.cpu.pages ∧
      PictureWindows cart.mapper cart.chr.size m.ppu.pages := by
  obtain ⟨cart, hparse, -⟩ := @Image.parse_blank 0x40 (by decide) (by decide)
  exact ⟨cart, hparse, windows_laid_out hparse default _⟩

end Famicom
