import Famicom.Proofs.Hit
import Famicom.Proofs.VerticalScroll

/-!
The scroll registers stay in range, whoever writes them:

    $2000   nametable bits              line 0        the whole register
    $2005   coarse and fine, x and y    other lines   its horizontal half
    $2006   six high bits, low byte     line end      one row of pixels down

Fine x is always below 8 and the two addresses below 0x8000: the highest bit of a word is never set, since every
part that is put in is short of it and a mask takes none in. Drawing moves none of the three (`standing`).
-/

namespace Famicom

namespace Ppu

/-! ### What drawing leaves alone -/

/-- All of a picture unit that drawing a line leaves alone. -/
def standing (p : Ppu) : Ppu :=
  { p with
    status := 0, hit := false, hitAt := none, pages := PageTable.blank
    line := Memory.zero lineSize, frame := Vector.replicate 240 (Memory.zero 256) }

/-- The registers and memories that a line is drawn from, the windows apart, are the same. -/
structure DrawsFrom (p q : Ppu) : Prop where
  ctrl : q.ctrl = p.ctrl
  mask : q.mask = p.mask
  oam : q.oam = p.oam
  palette : q.palette = p.palette
  fineX : q.fineX = p.fineX
  vramAddress : q.vramAddress = p.vramAddress
  scroll : q.scroll = p.scroll

theorem kept_of_standing {p q : Ppu} (h : q.standing = p.standing) : DrawsFrom p q := by
  have hkept {α : Type} (part : Ppu → α) : part q.standing = part p.standing := congrArg part h
  exact ⟨hkept ctrl, hkept mask, hkept oam, hkept palette, hkept fineX, hkept vramAddress, hkept scroll⟩

section
variable (p : Ppu) (board : Option Board) (cart : Cartridge)

theorem standing_drawn (base : UInt16) (tile : UInt8) :
    (p.drawn board cart base tile).1.standing = p.standing := by
  simp only [drawn, standing]
  split
  · rfl
  · split <;> rfl

theorem standing_line (line : Memory lineSize) : ({ p with line } : Ppu).standing = p.standing := rfl

theorem standing_drawTile (s : Ppu × Option Board) (k : Nat) :
    (drawTile cart s k).1.standing = s.1.standing := by
  simp only [drawTile, paintTile, standing_line]
  exact s.1.standing_drawn s.2 cart _ _

theorem standing_foldl {α : Type} {f : Ppu × Option Board → α → Ppu × Option Board}
    (step : ∀ s a, (f s a).1.standing = s.1.standing) (as : List α) (s : Ppu × Option Board) :
    (as.foldl f s).1.standing = s.1.standing := by
  induction as generalizing s with
  | nil => rfl
  | cons a as ih => exact (ih (f s a)).trans (step s a)

theorem standing_drawBackground : (p.drawBackground board cart).1.standing = p.standing := by
  rw [drawBackground_eq]
  split
  · exact p.standing_line _
  · have htiles := standing_foldl (standing_drawTile cart) (List.range 33) (p, board)
    generalize (List.range 33).foldl (drawTile cart) (p, board) = s at htiles ⊢
    obtain ⟨q, board⟩ := s
    simp only
    split
    · exact htiles
    · exact (q.standing_line _).trans htiles

theorem standing_recordHit (column clock : Nat) : (p.recordHit column clock).standing = p.standing := by
  unfold recordHit
  split <;> rfl

theorem standing_drawSprite (line clock : Nat) (s : Ppu × Option Board) (index : Nat) :
    (drawSprite cart line clock s index).1.standing = s.1.standing := by
  obtain ⟨p, board⟩ := s
  have hdrawn := p.standing_drawn board cart p.spriteBase (p.sprite index).tile
  simp only [drawSprite]
  generalize p.drawn board cart p.spriteBase (p.sprite index).tile = t at hdrawn ⊢
  obtain ⟨q, board⟩ := t
  simp only
  split
  · exact (standing_recordHit _ _ clock).trans ((q.standing_line _).trans hdrawn)
  · exact (q.standing_line _).trans hdrawn

theorem standing_overflow : ({ p with status := p.status ||| 0x20 } : Ppu).standing = p.standing := rfl

theorem standing_drawSpritesOf (line clock : Nat) :
    (p.drawSpritesOf board cart line clock).1.standing = p.standing := by
  unfold drawSpritesOf
  split
  · rfl
  · simp only
    generalize hq : (if (p.spritesOnLine line).length > 8 then { p with status := p.status ||| 0x20 }
      else p) = q
    have hflag : q.standing = p.standing := by
      rw [← hq]
      split
      · exact p.standing_overflow
      · rfl
    have hsprites := standing_foldl (standing_drawSprite cart line clock)
      ((p.spritesOnLine line).take 8) (q, board)
    generalize List.foldl (drawSprite cart line clock) _ _ = s at hsprites ⊢
    obtain ⟨r, board⟩ := s
    simp only
    split
    · exact hsprites.trans hflag
    · exact (r.standing_line _).trans (hsprites.trans hflag)

theorem standing_estimateHit (line clock : Nat) :
    (p.estimateHit cart line clock).standing = p.standing := by
  simp only [estimateHit]
  split
  · rfl
  · split
    · rfl
    · split
      · exact p.standing_recordHit _ clock
      · rfl

theorem standing_frame (frame : Frame) : ({ p with frame } : Ppu).standing = p.standing := rfl

/-- A line moves what its start moves. -/
theorem standing_runLine (line : Nat) (draw : Bool) (clock : Nat) :
    (p.runLine board cart line draw clock).1.standing = (p.startLine line).standing := by
  simp only [runLine]
  split
  · have hbackground := (p.startLine line).standing_drawBackground board cart
    generalize (p.startLine line).drawBackground board cart = s at hbackground ⊢
    obtain ⟨q, board⟩ := s
    simp only
    split
    · exact (standing_frame _ _).trans ((q.standing_drawSpritesOf board cart line clock).trans hbackground)
    · exact (standing_frame _ _).trans ((q.standing_estimateHit cart line clock).trans hbackground)
  · exact standing_estimateHit _ cart line clock

end

/-! ### In range -/

/-- Fine x is a place within a tile, and the addresses have fifteen bits. -/
structure InRange (p : Ppu) : Prop where
  fine : p.fineX ≤ 7
  address : p.vramAddress < 0x8000
  scroll : p.scroll < 0x8000

theorem or_lt_half {v w : UInt16} (hv : v < 0x8000) (hw : w < 0x8000) : v ||| w < 0x8000 := by
  rw [UInt16.lt_iff_toNat_lt, UInt16.toNat_or]
  exact Nat.or_lt_two_pow (n := 15) hv hw

theorem and_lt_half {v : UInt16} (hv : v < 0x8000) (w : UInt16) : v &&& w < 0x8000 := by
  rw [UInt16.lt_iff_toNat_lt, UInt16.toNat_and]
  exact Nat.lt_of_le_of_lt Nat.and_le_left hv

/-- A masked field is at most the mask, wherever it is moved. -/
theorem toNat_field_le (v mask shift : UInt16) :
    ((v &&& mask) <<< shift).toNat ≤ mask.toNat * 2 ^ (shift.toNat % 16) := by
  have hfield : (v &&& mask).toNat ≤ mask.toNat := by
    rw [UInt16.toNat_and]
    exact Nat.and_le_right
  rw [UInt16.toNat_shiftLeft, Nat.shiftLeft_eq]
  exact (Nat.mod_le _ _).trans (Nat.mul_le_mul_right _ hfield)

theorem field_lt_half (v : UInt16) {mask shift : UInt16}
    (h : mask.toNat * 2 ^ (shift.toNat % 16) < 0x8000) : (v &&& mask) <<< shift < 0x8000 :=
  (toNat_field_le v mask shift).trans_lt h

theorem byte_lt_half (value : UInt8) : value.toUInt16 < 0x8000 := by
  rw [UInt16.lt_iff_toNat_lt, UInt8.toNat_toUInt16]
  exact Nat.lt_trans value.toNat_lt (by decide)

theorem inRange_resetRegisters (p : Ppu) : p.resetRegisters.InRange :=
  ⟨(by decide : (0 : UInt8) ≤ 7), (by decide : (0x2000 : UInt16) < 0x8000),
    (by decide : (0x2000 : UInt16) < 0x8000)⟩

theorem inRange_powerOn : powerOn.InRange := inRange_resetRegisters _

section
variable {p q : Ppu} (h : p.InRange)
include h

/-- Drawing has no part in it. -/
theorem InRange.of_standing (hq : q.standing = p.standing) : q.InRange := by
  have hkept := kept_of_standing hq
  exact ⟨hkept.fineX.trans_le h.fine, hkept.vramAddress.trans_lt h.address, hkept.scroll.trans_lt h.scroll⟩

theorem InRange.startLine (line : Int) : (p.startLine line).InRange := by
  unfold Ppu.startLine
  split_ifs
  · exact h
  · exact ⟨h.fine, h.scroll, h.scroll⟩
  · exact ⟨h.fine, (reload_halves h.address p.scroll).1, h.scroll⟩

theorem InRange.startScanline (board : Option Board) (cart : Cartridge) (line : Int) (draw : Bool)
    (clock : Nat) : (p.startScanline board cart line draw clock).1.InRange := by
  have hcleared : InRange { p with scanline := line, status := p.status &&& 0xDF } :=
    ⟨h.fine, h.address, h.scroll⟩
  simp only [Ppu.startScanline]
  split_ifs
  · exact hcleared.startLine line
  · exact (hcleared.startLine line.toNat).of_standing (standing_runLine _ board cart line.toNat draw clock)
  all_goals exact ⟨h.fine, h.address, h.scroll⟩

theorem InRange.finishScanline (line : Int) : (p.finishScanline line).InRange := by
  unfold Ppu.finishScanline
  split
  · exact h
  · exact ⟨h.fine, (nextRow_vertical h.address).1, h.scroll⟩

theorem InRange.step : p.step.InRange := by
  refine ⟨h.fine, ?_, h.scroll⟩
  simp only [Ppu.step, UInt16.and_comm _ 0x3FFF]
  exact and_lt_half (by decide) _

theorem InRange.readRegister (cart : Cartridge) (address : UInt16) (clock : Nat) :
    (p.readRegister cart address clock).2.InRange := by
  unfold Ppu.readRegister
  split
  · exact ⟨h.fine, h.address, h.scroll⟩
  · simp only [readData]
    split <;> exact InRange.step ⟨h.fine, h.address, h.scroll⟩
  · exact h

theorem InRange.write (cart : Cartridge) (address : UInt16) (value : UInt8) :
    (p.write cart address value).1.InRange := by
  simp only [Ppu.write]
  split <;> exact ⟨h.fine, h.address, h.scroll⟩

theorem InRange.storeData (cart : Cartridge) (value : UInt8) : (p.storeData cart value).1.InRange := by
  have hnoted (notes : List String) : InRange { p with notes } := ⟨h.fine, h.address, h.scroll⟩
  unfold Ppu.storeData
  split_ifs
  · exact (hnoted _).write cart _ _
  · exact h.write cart _ value
  all_goals exact ⟨h.fine, h.address, h.scroll⟩

theorem InRange.writeScroll (value : UInt8) : (p.writeScroll value).InRange := by
  have hfine : value &&& 7 ≤ 7 := by
    rw [UInt8.le_iff_toNat_le, UInt8.toNat_and]
    exact Nat.and_le_right
  have hcoarse : value.toUInt16 >>> 3 < 0x8000 := by
    rw [UInt16.lt_iff_toNat_lt, UInt16.toNat_shiftRight, Nat.shiftRight_eq_div_pow]
    exact Nat.lt_of_le_of_lt (Nat.div_le_self _ _) (byte_lt_half value)
  simp only [Ppu.writeScroll]
  split
  · exact ⟨hfine, h.address, or_lt_half hcoarse (and_lt_half h.scroll _)⟩
  · exact ⟨h.fine, h.address, or_lt_half
      (or_lt_half (field_lt_half _ (by decide)) (field_lt_half _ (by decide))) (and_lt_half h.scroll _)⟩

theorem InRange.writeAddress (value : UInt8) : (p.writeAddress value).InRange := by
  have hloaded := or_lt_half (byte_lt_half value) (and_lt_half h.scroll 0xFF00)
  simp only [Ppu.writeAddress]
  split
  · exact ⟨h.fine, h.address, or_lt_half (field_lt_half _ (by decide)) (and_lt_half h.scroll _)⟩
  · exact ⟨h.fine, hloaded, hloaded⟩

theorem InRange.writeRegister (cart : Cartridge) (address : UInt16) (value : UInt8) :
    (p.writeRegister cart address value).1.InRange := by
  have hbus : InRange { p with bus := value } := ⟨h.fine, h.address, h.scroll⟩
  simp only [Ppu.writeRegister]
  split
  case h_1 =>
    have htable : (value &&& 3).toUInt16 <<< 10 < 0x8000 := by
      rw [UInt8.toUInt16_and]
      exact field_lt_half _ (by decide)
    exact ⟨h.fine, h.address, or_lt_half htable (and_lt_half h.scroll _)⟩
  case h_5 => exact hbus.writeScroll value
  case h_6 => exact hbus.writeAddress value
  case h_7 => exact (hbus.storeData cart value).step
  all_goals exact ⟨h.fine, h.address, h.scroll⟩

theorem InRange.transfer (block : Memory 0x100) : (p.transfer block).InRange := by
  unfold Ppu.transfer
  exact ⟨h.fine, h.address, h.scroll⟩

omit h in
theorem inRange_reset (p : Ppu) (hard : Bool) (prng : Xorshift) : (p.reset hard prng).1.InRange := by
  unfold Ppu.reset
  split <;> exact inRange_resetRegisters _

/-- No operation takes the scroll registers out of range. -/
theorem InRange.after (o : Nat × Operation) : (p.after o).InRange := by
  obtain ⟨clock, o⟩ := o
  cases o with
  | start board cart line draw => exact h.startScanline board cart line draw clock
  | finish line => exact h.finishScanline line
  | read cart address => exact h.readRegister cart address clock
  | write cart address value => exact h.writeRegister cart address value
  | transfer block => exact h.transfer block
  | arrange pages => exact ⟨h.fine, h.address, h.scroll⟩
  | showSprites on => exact ⟨h.fine, h.address, h.scroll⟩
  | reset hard prng => exact inRange_reset p hard prng

theorem InRange.run (operations : List (Nat × Operation)) : (p.run operations).InRange := by
  induction operations generalizing p with
  | nil => exact h
  | cons o rest ih => exact ih (h.after o)

end

end Ppu

end Famicom
