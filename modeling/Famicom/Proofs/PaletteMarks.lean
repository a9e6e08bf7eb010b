import Famicom.Proofs.Reload
import Famicom.Proofs.ScrollRange
import Famicom.Proofs.VisibleHit

/-!
The marks of the palette, and of the background that is drawn from it. Whatever a picture unit goes through
(`Reachable`), every fourth entry of its palette is the one marked backdrop, and no other entry has a mark:

    $2007          one plain colour, or the backdrop in all its entries
    snapshot       the colours alone, marked anew
    all the rest   leaves the palette as it is

So the background puts the backdrop's mark where it shows the backdrop, and nowhere a sprite's. That goes for
the cells it draws, which are all of the screen but not all of the line: with fine scroll f, its 33 tiles leave
f cells out on the right and 8 - f on the left.

    cell    0 ────── 8-f ────────────────────────────────── 272-f ────── 272
              kept    ╰ tile 0 │ tile 1 │  …      │ tile 32 ╯      kept

A sprite that hung over the right edge on an earlier line is still there in the cells left out.
-/

namespace Famicom

namespace Ppu

/-! ### The states of a picture unit -/

/-- A picture unit that has been run since power-on, is at the start of a line, or has taken a snapshot of
such a one over. -/
inductive Reachable : Ppu → Prop
  | powerOn : Reachable powerOn
  | after {p : Ppu} (h : Reachable p) (o : Nat × Operation) : Reachable (p.after o)
  | opened {p : Ppu} (h : Reachable p) (line : Nat) : Reachable (p.opened line)
  | restored {m n k : Machine} (h : Reachable m.ppu) (h' : Reachable n.ppu)
      (hrestore : n.restore m.save = .ok k) : Reachable k.ppu

theorem Reachable.run {p : Ppu} (h : Reachable p) (operations : List (Nat × Operation)) :
    Reachable (p.run operations) := by
  induction operations generalizing p with
  | nil => exact h
  | cons o rest ih => exact ih (h.after o)

/-! ### What the cells of a line show -/

section
variable (p : Ppu) (board : Option Board) (cart : Cartridge)

/-- The picture unit and its board when tile `k` of the line is drawn. -/
def atTile (k : Nat) : Ppu × Option Board := (List.range k).foldl (drawTile cart) (p, board)

/-- How far a cell lies from the first pixel of the first tile. -/
def alongTiles (a : Nat) : Nat := a + p.fineX.toNat - lineMargin

/-- The background draws the cell: hidden, it fills the line; shown, its tiles reach there. -/
def Painted (a : Nat) : Prop :=
  p.backgroundOn = true → lineMargin ≤ a + p.fineX.toNat ∧ a + p.fineX.toNat < lineSize

/-- The two-bit colour of the tile at a cell, from the windows as they stand when that tile is drawn. -/
def tileColour (a : Nat) : UInt8 :=
  let k := p.alongTiles a / 8
  let q := (p.atTile board cart k).1
  let row := q.backgroundRowAddress (q.read cart (tileAddress q.vramAddress k))
  patternPixel (q.read cart row) (q.read cart (row + 8)) (p.alongTiles a % 8)

/-- The entry of the palette that the tile at a cell chooses. -/
def tileEntry (a : Nat) : Nat :=
  let k := p.alongTiles a / 8
  4 * ((p.atTile board cart k).1.tileGroup cart k).toNat + (p.tileColour board cart a).toNat

/-- The cell shows the backdrop: the background is hidden, or hidden in the leftmost columns, or its tile is
clear there. -/
def ShowsBackdrop (a : Nat) : Prop :=
  p.backgroundOn = false ∨ (p.backgroundLeft = false ∧ 8 ≤ a ∧ a < 16) ∨ p.tileColour board cart a = 0

variable {board} in
/-- With no board that moves windows while it watches, that is the colour which the memories name. -/
theorem tileColour_eq (hboard : ∀ b, board = some b → b.number ≠ 9) {x : Nat}
    (hx : p.fineX.toNat + x < 264) :
    (p.tileColour board cart (lineMargin + x)).toNat = p.colourAt cart x := by
  have hplace : p.alongTiles (lineMargin + x) = p.fineX.toNat + x := by
    rw [alongTiles]
    omega
  have htiles (k : Nat) : p.atTile board cart k =
      ({ p with line := (List.range k).foldl (p.withTile cart) p.line }, board) :=
    p.foldl_drawTile hboard cart (List.range k) p.line
  rw [p.colourAt_eq cart hx]
  simp only [tileColour, hplace, htiles]
  rfl

/-! ### The line, cell by cell -/

theorem line_drawn (base : UInt16) (tile : UInt8) : (p.drawn board cart base tile).1.line = p.line := by
  unfold drawn
  split
  · rfl
  · simp only
    split <;> rfl

theorem standing_atTile (k : Nat) : (p.atTile board cart k).1.standing = p.standing :=
  standing_foldl (standing_drawTile cart) (List.range k) (p, board)

theorem line_drawTile (s : Ppu × Option Board) (k : Nat) :
    let row := s.1.backgroundRowAddress (s.1.read cart (tileAddress s.1.vramAddress k))
    (drawTile cart s k).1.line =
      putTile s.1.line s.1.palette (lineMargin - s.1.fineX.toNat + 8 * k) (s.1.read cart row)
        (s.1.read cart (row + 8)) (s.1.tileGroup cart k) := by
  intro row
  have hkept := kept_of_standing (s.1.standing_drawn s.2 cart s.1.backgroundBase
    (s.1.read cart (tileAddress s.1.vramAddress k)))
  simp only [drawTile, paintTile, line_drawn, hkept.palette, hkept.fineX]
  rfl

variable {p} in
/-- The first tiles of a line show the entries that they choose; the rest of it is as it was. -/
theorem read_atTile (hfine : p.fineX.toNat ≤ 8) {count : Nat} (hcount : count ≤ 33) {a : Nat}
    (ha : a < lineSize) :
    (p.atTile board cart count).1.line.read a =
      if lineMargin ≤ a + p.fineX.toNat ∧ a + p.fineX.toNat < lineMargin + 8 * count then
        p.palette.read (p.tileEntry board cart a)
      else p.line.read a := by
  have hmargin : lineMargin = 8 := rfl
  induction count with
  | zero =>
    rw [if_neg (by omega)]
    rfl
  | succ count ih =>
    have hstep : p.atTile board cart (count + 1) = drawTile cart (p.atTile board cart count) count := by
      rw [atTile, List.range_succ, List.foldl_append]
      rfl
    have hkept := kept_of_standing (p.standing_atTile board cart count)
    have hstart : lineMargin - p.fineX.toNat + 8 * count + 8 ≤ lineSize := by
      simp only [lineSize]
      omega
    rw [hstep, line_drawTile, hkept.palette, hkept.fineX, read_putTile _ _ _ _ hstart ha, ih (by omega)]
    -- the last tile either holds the cell or leaves it alone; it is drawn from windows that earlier tiles moved
    by_cases hmine : lineMargin - p.fineX.toNat + 8 * count ≤ a ∧
        a < lineMargin - p.fineX.toNat + 8 * count + 8
    · have htile : p.alongTiles a / 8 = count := by
        simp only [alongTiles]
        omega
      have hpixel : a - (lineMargin - p.fineX.toNat + 8 * count) = p.alongTiles a % 8 := by
        simp only [alongTiles]
        omega
      rw [if_pos hmine, if_pos (by omega), hpixel, toNat_entry (tileGroup_lt _ cart count)
        (patternPixel_lt _ _ (Nat.mod_lt _ (by decide)))]
      simp only [tileEntry, tileColour, htile]
    · rw [if_neg hmine]
      congr 1
      apply propext
      omega

variable {p} in
/-- Every cell after the background of a line. -/
theorem read_cells (hfine : p.fineX.toNat ≤ 8) {a : Nat} (ha : a < lineSize) :
    (p.drawBackground board cart).1.line.read a =
      if p.backgroundOn = false ∨ p.backgroundLeft = false ∧ 8 ≤ a ∧ a < 16 then p.backdrop
      else if lineMargin ≤ a + p.fineX.toNat ∧ a + p.fineX.toNat < lineSize then
        p.palette.read (p.tileEntry board cart a)
      else p.line.read a := by
  cases hon : p.backgroundOn with
  | false =>
    rw [if_pos (Or.inl rfl)]
    exact read_drawBackground_off cart hon a
  | true =>
    have htiles := read_atTile board cart hfine (Nat.le_refl 33) ha
    have hend : lineMargin + 8 * 33 = lineSize := rfl
    have hkept := kept_of_standing (p.standing_atTile board cart 33)
    rw [hend] at htiles
    rw [drawBackground_eq, hon, ← htiles]
    unfold atTile at hkept ⊢
    generalize (List.range 33).foldl (drawTile cart) (p, board) = s at hkept ⊢
    obtain ⟨q, board⟩ := s
    have hleft : q.backgroundLeft = p.backgroundLeft := by rw [backgroundLeft, hkept.mask, backgroundLeft]
    have hbackdrop : q.backdrop = p.backdrop := by rw [backdrop, hkept.palette, backdrop]
    simp only [hleft]
    cases p.backgroundLeft with
    | true => simp
    | false => simp [read_fillLeft _ _ ha, hbackdrop]

/-! ### The marks of a line -/

variable {p} in
theorem backdrop_marks (hp : Marked p.palette) : p.backdrop &&& 0x40 = 0 ∧ p.backdrop &&& 0x80 ≠ 0 := by
  have huntaken := untaken_entry hp 0
  rw [Untaken] at huntaken
  refine ⟨?_, backdropMark_or _⟩
  rw [backdrop, or_and_mask, huntaken]
  rfl

variable {p} in
/-- An entry that a tile chooses bears the mark where the tile is clear. -/
theorem entry_marks (hp : Marked p.palette) (a : Nat) :
    p.palette.read (p.tileEntry board cart a) &&& 0x40 = 0 ∧
      (p.palette.read (p.tileEntry board cart a) &&& 0x80 ≠ 0 ↔ p.tileColour board cart a = 0) := by
  have hcolour : (p.tileColour board cart a).toNat < 4 := patternPixel_lt _ _ (Nat.mod_lt _ (by decide))
  have hclear : p.tileEntry board cart a % 4 = 0 ↔ p.tileColour board cart a = 0 := by
    rw [← UInt8.toNat_inj, UInt8.toNat_zero, tileEntry]
    omega
  refine ⟨untaken_entry hp _, ?_⟩
  rw [Ne, solid_entry_iff hp, Ne, not_not, hclear]

variable {p} in
/-- What is hidden is drawn: all of the line, or its leftmost columns. -/
theorem painted_of_hidden (hfine : p.fineX.toNat ≤ 7) {a : Nat}
    (h : p.backgroundOn = false ∨ p.backgroundLeft = false ∧ 8 ≤ a ∧ a < 16) : p.Painted a := by
  intro hon
  rcases h with hoff | ⟨-, hlo, hhi⟩
  · rw [hon] at hoff
    cases hoff
  · simp only [lineMargin, lineSize]
    omega

variable {p} in
/-- The background marks what it draws as backdrop where it shows that, and as a sprite's nowhere. -/
theorem background_marks (hp : Marked p.palette) (hfine : p.fineX ≤ 7) {a : Nat} (ha : a < lineSize) :
    let cell := (p.drawBackground board cart).1.line.read a
    (p.Painted a → cell &&& 0x40 = 0 ∧ (cell &&& 0x80 ≠ 0 ↔ p.ShowsBackdrop board cart a)) ∧
      (¬ p.Painted a → cell = p.line.read a) := by
  intro cell
  have hseven : p.fineX.toNat ≤ 7 := UInt8.le_iff_toNat_le.mp hfine
  have hcell : cell = _ := read_cells board cart (Nat.le_succ_of_le hseven) ha
  by_cases hhidden : p.backgroundOn = false ∨ p.backgroundLeft = false ∧ 8 ≤ a ∧ a < 16
  · rw [if_pos hhidden] at hcell
    obtain ⟨hsprite, hmark⟩ := backdrop_marks hp
    rw [hcell]
    exact ⟨fun _ => ⟨hsprite, iff_of_true hmark (hhidden.imp_right Or.inl)⟩,
      fun h => absurd (painted_of_hidden hseven hhidden) h⟩
  · rw [if_neg hhidden] at hcell
    obtain ⟨hon, hshown⟩ := not_or.mp hhidden
    by_cases hreach : lineMargin ≤ a + p.fineX.toNat ∧ a + p.fineX.toNat < lineSize
    · rw [if_pos hreach] at hcell
      rw [hcell, ShowsBackdrop, or_iff_right hon, or_iff_right hshown]
      exact ⟨fun _ => entry_marks board cart hp a, fun h => absurd (fun _ => hreach) h⟩
    · rw [if_neg hreach] at hcell
      exact ⟨fun h => absurd (h (Bool.eq_true_of_not_eq_false hon)) hreach, fun _ => hcell⟩

end

/-! ### The palette keeps its marks -/

theorem marked_entries {palette : Memory 32} (h : Marked palette) {a : Nat} (ha : a < 32) :
    if a % 4 = 0 then
      palette.read a = palette.read 0 ∧ palette.read a &&& 0x80 = 0x80 ∧ palette.read a &&& 0x40 = 0
    else palette.read a < 0x40 := by
  have hentry := h a ha
  split at hentry
  case isTrue hbackdrop =>
    rw [if_pos hbackdrop]
    have hfirst := h 0 (by decide)
    rw [if_pos (Nat.zero_mod 4), ← hentry] at hfirst
    refine ⟨hfirst.symm, ?_, untaken_entry h a⟩
    rw [hentry, or_and_mask, UInt8.and_assoc]
    exact UInt8.toBitVec_inj.mp (by simp [colourMask, backdropMark])
  case isFalse hinner =>
    rw [if_neg hinner, hentry, UInt8.lt_iff_toNat_lt, UInt8.toNat_and]
    exact Nat.lt_succ_of_le Nat.and_le_right

section
variable (p : Ppu) (board : Option Board) (cart : Cartridge)

/-- Drawing only reads the palette. -/
theorem palette_startScanline (line : Int) (draw : Bool) (clock : Nat) :
    (p.startScanline board cart line draw clock).1.palette = p.palette := by
  have hclosed : Closed cart clock fun s t => t.1.palette = s.1.palette :=
    .of_shows (fun h h' => h'.trans h) (fun _ hshows => congrArg (·.2.1) hshows) fun p board tile base _ =>
      (kept_of_standing (p.standing_drawn board cart base tile)).palette
  exact hclosed.startScanline p board line draw fun _ _ hshows => congrArg (·.2.1) hshows

variable {p}

theorem marked_storeData (h : Marked p.palette) (value : UInt8) :
    Marked (p.storeData cart value).1.palette := by
  have hwrite (q : Ppu) (address : UInt16) (value : UInt8) :
      (q.write cart address value).1.palette = q.palette := by
    simp only [write]
    split <;> rfl
  unfold storeData
  split_ifs with _ _ _ hinner
  · exact (hwrite _ _ _).symm ▸ h
  · exact (hwrite _ _ _).symm ▸ h
  · exact h.backdrop value
  · exact h.colour value (Machine.inner_of_and hinner)
  · exact h

theorem marked_writeRegister (h : Marked p.palette) (address : UInt16) (value : UInt8) :
    Marked (p.writeRegister cart address value).1.palette := by
  simp only [writeRegister]
  split
  case h_5 =>
    simp only [writeScroll]
    split <;> exact h
  case h_6 =>
    simp only [writeAddress]
    split <;> exact h
  case h_7 => exact marked_storeData (p := { p with bus := value }) cart h value
  all_goals exact h

/-- No operation puts a mark into the palette or takes one out. -/
theorem marked_after (h : Marked p.palette) (o : Nat × Operation) : Marked (p.after o).palette := by
  obtain ⟨clock, o⟩ := o
  cases o with
  | start board cart line draw => exact (p.palette_startScanline board cart line draw clock).symm ▸ h
  | finish line =>
    simp only [after, finishScanline]
    split <;> exact h
  | read cart address => exact (Machine.layout_readRegister p cart address clock).2.symm ▸ h
  | write cart address value => exact marked_writeRegister cart h address value
  | transfer block =>
    rw [Ppu.after, transfer]
    exact h
  | arrange pages => exact h
  | showSprites on => exact h
  | reset hard prng => exact (Machine.picture_reset p hard prng).2.symm ▸ h

end

/-! ### What is reachable -/

/-- The palette has its marks, and the scroll registers are in range. -/
structure Lawful (p : Ppu) : Prop where
  palette : Marked p.palette
  range : p.InRange

theorem Lawful.withPages {p : Ppu} (h : p.Lawful) (pages : PageTable) : Lawful { p with pages } :=
  ⟨h.palette, h.range.fine, h.range.address, h.range.scroll⟩

section
open Snapshot

theorem lawful_picture {body : List UInt8} (hpalette : Marked (paletteOf body))
    (hfine : body.getD (addressOffset + 3) 0 ≤ 7) (haddress : wordAt body addressOffset < 0x8000) (p : Ppu) :
    (picture body p).Lawful :=
  ⟨hpalette, hfine, haddress, or_lt_half (byte_lt_half _) (and_lt_half (field_lt_half _ (by decide)) _)⟩

/-- A body brings the palette and the registers of the machine it was made from, whatever was there. -/
theorem Lawful.picture {m : Machine} (h : m.ppu.Lawful) (p : Ppu) :
    (Snapshot.picture (baseBody m) p).Lawful := by
  refine lawful_picture ?_ ?_ ?_ p
  · rw [paletteOf_marked h.palette]
    exact h.palette
  · rw [getD_add, drop_address]
    exact h.range.fine
  · rw [wordAt_of_drop (drop_address m)]
    exact h.range.address

/-- A snapshot's only block of the picture unit is the one that the machine has made. -/
theorem body_of_base {m : Machine} {b : Block} (hb : b ∈ completed (blocks m)) (htag : b.tag = .base) :
    b.body = baseBody m := by
  have hother {tag : Tag} {body : List UInt8} (hne : tag ≠ .base) (h : b = ⟨tag, body⟩) : False :=
    hne ((congrArg Block.tag h).symm.trans htag)
  have hblocks : b = ⟨.sram, 0 :: (Memory.zero 0x2000).toList⟩ ∨ b ∈ blocks m := by
    unfold completed at hb
    split at hb
    · exact Or.inr hb
    · exact List.mem_cons.mp hb
  rw [blocks_eq] at hblocks
  simp only [List.mem_cons, List.mem_append] at hblocks
  -- all but one have another tag
  rcases hblocks with h | rfl | h | h | h | h
  · exact (hother (by decide) h).elim
  · rfl
  · unfold vramBlocks at h
    split at h
    · exact (hother (by decide) (List.mem_singleton.mp h)).elim
    · exact absurd h List.not_mem_nil
  · unfold sramBlocks at h
    split at h
    · exact (hother (by decide) (List.mem_singleton.mp h)).elim
    · exact absurd h List.not_mem_nil
  · exact (hother (by decide) h).elim
  · split at h
    · exact absurd h List.not_mem_nil
    · exact (hother (by decide) (List.mem_singleton.mp h)).elim

theorem Lawful.takeOver {m : Machine} (hm : m.ppu.Lawful) {b : Block}
    (hb : b.tag = .base → b.body = baseBody m) {n : Machine} (h : n.ppu.Lawful) :
    (Snapshot.takeOver n b).ppu.Lawful := by
  show (ppuAfter n.cart n.ppu b).Lawful
  unfold ppuAfter byTag
  split
  case isTrue htag =>
    rw [hb htag]
    exact hm.picture n.ppu
  case isFalse =>
    split
    · exact h.withPages _
    · exact h

/-- Taking a snapshot over takes its machine's blocks over. -/
theorem restored_eq {m n k : Machine} (hrestore : n.restore m.save = .ok k) :
    restoreBlocks n (blocks m) = k := by
  obtain ⟨hcount, hlength⟩ := length_blocks m
  have hdecode : Block.decodeAll m.save = .ok (blocks m) := Block.decodeAll_encodeAll _ hcount hlength
  obtain ⟨-, read, hread, rfl⟩ := Machine.of_restore hrestore
  rw [Except.ok.inj (hdecode.symm.trans hread)]

theorem Lawful.takeAll {m : Machine} (hm : m.ppu.Lawful) {taken : List Block}
    (htaken : ∀ b ∈ taken, b.tag = .base → b.body = baseBody m) {n : Machine} (h : n.ppu.Lawful) :
    (taken.foldl Snapshot.takeOver n).ppu.Lawful := by
  induction taken generalizing n with
  | nil => exact h
  | cons b rest ih =>
    obtain ⟨hb, hrest⟩ := List.forall_mem_cons.mp htaken
    exact ih hrest (hm.takeOver hb h)

theorem Lawful.restored {m n k : Machine} (hm : m.ppu.Lawful) (hn : n.ppu.Lawful)
    (hrestore : n.restore m.save = .ok k) : k.ppu.Lawful := by
  have hunlogged := unlogged_restoreBlocks n (blocks m)
  rw [restored_eq hrestore] at hunlogged
  show k.unlogged.ppu.Lawful
  rw [hunlogged]
  exact hm.takeAll (fun b => body_of_base) hn

end

theorem Lawful.opened {p : Ppu} (h : p.Lawful) (line : Nat) : (p.opened line).Lawful := by
  have hcleared : InRange { p with scanline := line, status := p.status &&& 0xDF } :=
    ⟨h.range.fine, h.range.address, h.range.scroll⟩
  have hpalette : (p.opened line).palette = p.palette := congrArg (·.2.1) (shows_startLine _ (line : Int))
  exact ⟨hpalette.symm ▸ h.palette, hcleared.startLine line⟩

theorem Reachable.lawful {p : Ppu} (h : Reachable p) : p.Lawful := by
  induction h with
  | powerOn => exact ⟨marked_powerOn, inRange_powerOn⟩
  | after _ o ih => exact ⟨marked_after ih.palette o, ih.range.after o⟩
  | opened _ line ih => exact ih.opened line
  | restored _ _ hrestore ih ih' => exact ih.restored ih' hrestore

/-- In every reachable state the backdrop entries of the palette are one marked backdrop, and the others plain
colours. So the background leaves no sprite's mark in the cells it draws, which are all of the screen, and the
backdrop's in those that show it; in the others it leaves what was there. -/
theorem marks_of_reachable {p : Ppu} (h : Reachable p) :
    (∀ a < 32,
      if a % 4 = 0 then
        p.palette.read a = p.palette.read 0 ∧ p.palette.read a &&& 0x80 = 0x80 ∧ p.palette.read a &&& 0x40 = 0
      else p.palette.read a < 0x40) ∧
    (∀ x < 256, p.Painted (lineMargin + x)) ∧
    ∀ board cart, ∀ a < lineSize,
      let cell := (p.drawBackground board cart).1.line.read a
      (p.Painted a → cell &&& 0x40 = 0 ∧ (cell &&& 0x80 ≠ 0 ↔ p.ShowsBackdrop board cart a)) ∧
        (¬ p.Painted a → cell = p.line.read a) := by
  obtain ⟨hpalette, hrange⟩ := h.lawful
  refine ⟨fun a => marked_entries hpalette, fun x hx _ => ?_, fun board cart a =>
    background_marks board cart hpalette hrange.fine⟩
  have hseven : p.fineX.toNat ≤ 7 := UInt8.le_iff_toNat_le.mp hrange.fine
  simp only [lineMargin, lineSize]
  omega

/-- A backdrop written through one of its copies, a colour after it, and seven pixels of scroll. -/
def coloured : Ppu :=
  powerOn.run [(0, .write {} 0x2006 0x3F), (0, .write {} 0x2006 0x10), (0, .write {} 0x2007 0xFF),
    (0, .write {} 0x2007 0xFF), (0, .write {} 0x2005 7)]

theorem marks_of_reachable_coloured : Reachable coloured ∧
    coloured.palette.read 28 = coloured.palette.read 0 ∧ coloured.palette.read 17 < 0x40 ∧
    let cell := (coloured.drawBackground none {}).1.line.read (lineMargin + 255)
    cell &&& 0x40 = 0 ∧ cell &&& 0x80 ≠ 0 := by
  have hreachable : Reachable coloured := Reachable.powerOn.run _
  obtain ⟨hpalette, hscreen, hcells⟩ := marks_of_reachable hreachable
  have hbackdrop := hpalette 28 (by decide)
  have hcolour := hpalette 17 (by decide)
  rw [if_pos (by decide)] at hbackdrop
  rw [if_neg (by decide)] at hcolour
  have hclear : coloured.tileColour none {} (lineMargin + 255) = 0 := by decide +kernel
  obtain ⟨hsprite, hmark⟩ := (hcells none {} (lineMargin + 255) (by decide)).1 (hscreen 255 (by decide))
  exact ⟨hreachable, hbackdrop.1, hcolour, hsprite, hmark.mpr (Or.inr (Or.inr hclear))⟩

/-- A solid sprite that hung over the right edge of line 10, and seven pixels of scroll since. -/
def overhung : Ppu :=
  powerOn.run [
    (0, .arrange ((PageTable.blank.mapChr 0x2000 8 0 0).mirror 0 0 1 1)),
    (0, .write {} 0x2004 9), (0, .write {} 0x2003 3), (0, .write {} 0x2004 255),
    (0, .write {} 0x2001 0x14),
    (0, .start none { chr := #[0xFF] } 10 true),
    (0, .write {} 0x2001 0x1E),
    (0, .write {} 0x2005 7)]

/-- Its mark is still in the margin after the next background, whose tiles end short of it. -/
theorem overhung_keeps_mark :
    ¬ ∀ p, Reachable p → ∀ board cart, ∀ a < lineSize,
      (p.drawBackground board cart).1.line.read a &&& 0x40 = 0 := by
  intro hall
  have hreachable : Reachable overhung := Reachable.powerOn.run _
  obtain ⟨hpalette, hrange⟩ := hreachable.lawful
  have hmargin : ¬ overhung.Painted 270 := by
    intro h
    exact absurd (h (by decide +kernel)).2 (by decide +kernel)
  have hkept := (background_marks none {} hpalette hrange.fine (by decide : 270 < lineSize)).2 hmargin
  have hmark : overhung.line.read 270 &&& 0x40 ≠ 0 := by decide +kernel
  have hclear := hall overhung hreachable none {} 270 (by decide)
  rw [hkept] at hclear
  exact hmark hclear

end Ppu

end Famicom
