import Famicom.Proofs.Closure
import Famicom.Proofs.Layout
import Famicom.Proofs.SoundUnit

/-!
Every operation of a running machine is a row of moves of its layout. The parts that a machine's operations
are made of are, so by closure the operations themselves are (`Machine.closed_moves`); sound samples come in
addition.

    bus read     nothing moves
    bus write    what the board, the palette and the sound unit are told to
    drawn tile   at most its own pattern window
    samples      the level of the sample voice
-/

namespace Famicom

namespace Machine

open Layout (Moves)

variable (m : Machine)

/-! ### The bus -/

theorem layout_drainNotes : m.drainNotes.layout = m.layout := by
  unfold drainNotes
  split_ifs <;> simp only [layout]

theorem layout_readRegister (p : Ppu) (cart : Cartridge) (address : UInt16) (clock : Nat) :
    (p.readRegister cart address clock).2.pages = p.pages ∧
      (p.readRegister cart address clock).2.palette = p.palette := by
  unfold Ppu.readRegister
  split
  · exact ⟨rfl, rfl⟩
  · simp only [Ppu.readData]
    split <;> exact ⟨rfl, rfl⟩
  · exact ⟨rfl, rfl⟩

/-- Reading moves nothing. -/
theorem layout_read (address : UInt16) : (m.read address).2.layout = m.layout := by
  obtain ⟨hpages, hpalette⟩ := layout_readRegister m.ppu m.cart address m.cpu.clock
  unfold read
  split_ifs
  case pos => rfl
  case pos => rfl
  case pos =>
    simp only [layout_drainNotes]
    simp only [layout, hpages, hpalette]
  all_goals rfl

theorem rom_write (c : Cartridge) (region : Region) (index : Nat) (value : UInt8) :
    (c.write region index value).rom = c.rom := by
  cases region <;> simp [Cartridge.write, Cartridge.rom, Function.comp_def]

theorem layout_poke (address : UInt16) (value : UInt8) : (m.poke address value).layout = m.layout := by
  simp only [poke]
  split <;> simp only [layout, rom_write]

/-- The layout of a machine whose picture unit and cartridge have been written. -/
def withPicture (s : Ppu × Cartridge) : Machine := { m with ppu := s.1, cart := s.2 }

theorem layout_pictureWrite (p : Ppu) (cart : Cartridge) (address : UInt16) (value : UInt8) :
    (m.withPicture (p.write cart address value)).layout = (m.withPicture (p, cart)).layout := by
  simp only [Ppu.write]
  split <;> simp only [withPicture, layout, rom_write]

/-- An address between backdrop entries. -/
theorem inner_of_and {v : UInt16} (h : v &&& 3 ≠ 0) : v.toNat % 32 % 4 ≠ 0 := by
  intro h0
  have hmod : v.toNat &&& 3 = v.toNat % 4 := Nat.and_two_pow_sub_one_eq_mod v.toNat 2
  apply h
  apply UInt16.toNat.inj
  rw [UInt16.toNat_and]
  show v.toNat &&& 3 = 0
  omega

theorem moves_storeData (p : Ppu) (cart : Cartridge) (value : UInt8) :
    Moves (m.withPicture (p, cart)).layout (m.withPicture (p.storeData cart value)).layout := by
  unfold Ppu.storeData
  split_ifs with hlow hbusy hbackdrop hinner
  · exact Moves.of_eq (m.layout_pictureWrite _ _ _ _)
  · exact Moves.of_eq (m.layout_pictureWrite _ _ _ _)
  · refine (Layout.Step.backdrop value).moves.trans (Moves.of_eq ?_)
    simp only [withPicture, layout]
  · refine (Layout.Step.colour _ value (inner_of_and hinner)).moves.trans (Moves.of_eq ?_)
    simp only [withPicture, layout]
  · exact Moves.refl _

theorem moves_writeRegister (address : UInt16) (value : UInt8) :
    Moves m.layout (m.withPicture (m.ppu.writeRegister m.cart address value)).layout := by
  simp only [Ppu.writeRegister, Ppu.writeScroll, Ppu.writeAddress, Ppu.step]
  split
  case h_7 =>
    refine Moves.trans (Moves.of_eq ?_)
      ((m.moves_storeData { m.ppu with bus := value } m.cart value).trans
      (Moves.of_eq ?_))
    · simp only [withPicture, layout]
    · simp only [withPicture, layout]
  all_goals exact Moves.of_eq (by (try split_ifs) <;> simp only [withPicture, layout])

theorem moves_writeCartridge (address : UInt16) (value : UInt8) :
    Moves m.layout (m.writeCartridge address value).layout := by
  simp only [writeCartridge]
  split
  case h_1 e _ he =>
    obtain ⟨hchip, -⟩ := Option.filter_eq_some_iff.mp he
    refine Moves.of_eq ?_
    simp only [layout, Sound.chip, hchip, Option.map_some, Expansion.chip_write]
  case h_2 => exact m.moves_boardWrite address value
  case h_3 =>
    split_ifs
    · exact Moves.refl _
    · exact Moves.of_eq (m.layout_poke address value)

theorem moves_soundWrite (address : UInt16) (value : UInt8) :
    Moves m.layout { m with sound := m.sound.write address value }.layout := by
  have hchip : (m.sound.write address value).chip = m.sound.chip := m.sound.chip_write address value
  rcases m.sound.dac_write address value with hdac | hdac
  · exact Moves.of_eq (by simp only [layout, hchip, hdac])
  · refine (Layout.Step.level _ fun _ => hdac).moves.trans (Moves.of_eq ?_)
    simp only [layout, hchip]

/-- Writing moves what the board, the palette and the sound unit are told to. -/
theorem moves_write (address : UInt16) (value : UInt8) :
    Moves m.layout (m.write address value).layout := by
  unfold write
  split_ifs
  · exact Moves.of_eq (by simp only [layout])
  · simp only [layout_drainNotes]
    exact m.moves_writeRegister address value
  · exact Moves.of_eq (by simp only [layout, transferSprites, Ppu.transfer, Cpu.charge, Cpu.endSlice])
  · exact m.moves_soundWrite address value
  · refine (m.moves_withBoard (fun b => (b, b.strobe value)) (fun _ => rfl)
      fun b => b.strobe_fits value).trans
      (Moves.of_eq ?_)
    simp only [writeStrobe, layout]
  · exact Moves.of_eq (by simp only [layout])
  · exact m.moves_writeCartridge address value

/-! ### What only the processor and the log can tell -/

theorem layout_cpu (c : Cpu) (h : c.pages = m.cpu.pages) : { m with cpu := c }.layout = m.layout := by
  simp only [layout, h]

theorem layout_note (message : String) : (m.note message).layout = m.layout := by
  simp only [note, layout]

end Machine

/-! ### The picture -/

namespace Layout

/-- A layout with what a picture unit shows and the board that watches it. -/
def paint (l : Layout) (s : Ppu × Option Board) : Layout :=
  { l with ppu := s.1.pages, palette := s.1.palette, board := s.2.map Board.number }

variable {l : Layout} {cart : Cartridge}

/-- A drawn tile moves at most its own pattern window. -/
theorem moves_drawn (hrom : cart.chr.size = l.rom.chr.size) (p : Ppu) (board : Option Board)
    (tile : UInt8) {base : UInt16} (hbase : base = 0 ∨ base = 0x1000) :
    Moves (l.paint (p, board)) (l.paint (p.drawn board cart base tile)) := by
  unfold Ppu.drawn
  split
  · exact Moves.refl _
  case h_2 b =>
    obtain ⟨hnumber, hchoice⟩ := b.drawn_number base tile
    simp only
    split
    case h_1 => exact Moves.of_eq (by simp only [paint, Option.map_some, hnumber])
    case h_2 bank hbank =>
      have hfits : (Signal.chr 4 base bank).Fits b.number := by
        refine ⟨hchoice (by rw [hbank]; exact Option.some_ne_none _), ?_⟩
        rcases hbase with rfl | rfl <;> decide
      refine (Step.wish b.number _ rfl hfits).moves.trans (Moves.of_eq ?_)
      simp only [paint, obey, Option.map_some, hnumber, hrom]

theorem paint_shows {p q : Ppu} (board : Option Board) (h : q.shows = p.shows) :
    l.paint (q, board) = l.paint (p, board) := by
  have hpages : q.pages = p.pages := congrArg Prod.fst h
  have hpalette : q.palette = p.palette := congrArg (·.2.1) h
  simp only [paint, hpages, hpalette]

/-- Whatever the picture unit does to a line is a row of moves. -/
theorem closed_paint (hrom : cart.chr.size = l.rom.chr.size) (clock : Nat) :
    Ppu.Closed cart clock fun s s' => Moves (l.paint s) (l.paint s') :=
  .of_shows Moves.trans (fun board hshows => Moves.of_eq (paint_shows board hshows))
    fun p board tile _ hbase => moves_drawn hrom p board tile hbase

end Layout

/-! ### Lines, frames and samples -/

namespace Machine

open Layout (Moves)

variable (m : Machine)

theorem moves_lineStart (draw : Bool) : Moves m.layout (m.lineStart draw).layout := by
  simp only [lineStart, layout_drainNotes]
  exact (@Layout.closed_paint m.layout m.cart rfl _).startScanline m.ppu m.board m.scanline draw
    fun _ _ hshows => Moves.of_eq (Layout.paint_shows m.board hshows)

theorem layout_lineEnd : m.lineEnd.layout = m.layout := by
  unfold lineEnd Ppu.finishScanline
  split <;> simp only [layout]

/-- Whatever a machine does is a row of moves. -/
theorem closed_moves : Closed fun m n => Moves m.layout n.layout where
  refl := fun m => Moves.refl m.layout
  trans := Moves.trans
  cpu := fun m _ h => Moves.of_eq (m.layout_cpu _ h.pages)
  nmi := fun m => Moves.of_eq (m.layout_cpu _ (m.cpu.pages_nmi m.cart))
  irq := fun m => Moves.of_eq (m.layout_cpu _ (m.cpu.pages_irq m.cart))
  serve := fun m => Moves.of_eq (m.layout_cpu _ (m.cpu.pages_servePending m.cart))
  jam := fun m _ _ => Moves.of_eq ((layout_note _ _).trans (m.layout_cpu _ rfl))
  clockwork := fun m _ _ _ _ => Moves.refl m.layout
  read := fun m address => Moves.of_eq (m.layout_read address)
  write := moves_write
  lineStart := moves_lineStart
  hblank := fun m vblank => Moves.of_eq (m.layout_boardHblank vblank)
  lineEnd := fun m => Moves.of_eq m.layout_lineEnd

/-- A slice of any program. -/
theorem moves_execute (slice : Int) : Moves m.layout (m.execute slice).2.layout :=
  closed_moves.execute m slice

theorem moves_runLine (draw vblank : Bool) : Moves m.layout (m.runLine draw vblank).layout :=
  closed_moves.runLine m draw vblank

/-- A frame, drawn or not. -/
theorem moves_runFrame (draw : Bool) : Moves m.layout (m.runFrame draw).layout :=
  closed_moves.runFrame m draw

/-- Sound samples, which the sample voice fetches from memory. -/
theorem moves_samples (count : Nat) : Moves m.layout (m.samples count).2.layout := by
  have h := m.sound.render_keeps m.cpu m.cart count
  simp only [samples]
  generalize m.sound.render m.cpu m.cart count = r at h ⊢
  refine (Layout.Step.level r.2.1.sample.dac h.level).moves.trans (Moves.of_eq ?_)
  simp only [layout, h.chip, h.pages]

end Machine

end Famicom
