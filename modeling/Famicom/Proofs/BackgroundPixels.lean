import Famicom.Proofs.Undrawn

/-!
The background of a line, pixel by pixel. Of a pixel one may ask the memories directly (`backgroundPixel`),
without following the fetcher along the line:

    position    8 * coarse x + fine x + column       0 … 255 one nametable, 256 … 511 its neighbour
    cell        position / 8, row of the address     ─▶ tile number, two attribute bits
    pattern     tile number, fine y                  ─▶ two colour bits at position % 8

The drawn line holds just these pixels, on the screen and in the margin right of it as far as the last tile
reaches; the leftmost eight columns may be blanked.
-/

namespace Famicom

/-! ### Strokes -/

namespace Memory

variable {n : Nat}

/-- Bytes stored side by side. -/
theorem read_foldl_write (f : Nat → UInt8) {x count a : Nat} (hx : x + count ≤ n) (ha : a < n)
    (m : Memory n) :
    ((List.range count).foldl (fun m i => m.write (x + i) (f i)) m).read a =
      if x ≤ a ∧ a < x + count then f (a - x) else m.read a := by
  induction count with
  | zero => rw [if_neg (by omega)]; rfl
  | succ count ih =>
    rw [List.range_succ, List.foldl_append, List.foldl_cons, List.foldl_nil,
      read_write _ (by omega), ih (by omega), Nat.mod_eq_of_lt ha, Nat.mod_eq_of_lt (by omega)]
    rcases Nat.lt_trichotomy a (x + count) with hlt | rfl | hgt
    · rw [if_neg (by omega)]
      congr 1
      apply propext
      omega
    · rw [if_pos rfl, if_pos (by omega), Nat.add_sub_cancel_left]
    · rw [if_neg (by omega), if_neg (by omega), if_neg (by omega)]

/-- Of many strokes, only stroke `j` touches a cell. -/
theorem read_foldl_touched {step : Memory n → Nat → Memory n} {g : UInt8 → UInt8} {a j count : Nat}
    (h : ∀ i < count, ∀ m : Memory n, (step m i).read a = if i = j then g (m.read a) else m.read a)
    (m : Memory n) :
    ((List.range count).foldl step m).read a = if j < count then g (m.read a) else m.read a := by
  induction count with
  | zero => rfl
  | succ count ih =>
    have hbefore := ih fun i hi => h i (Nat.lt_succ_of_lt hi)
    rw [List.range_succ, List.foldl_append, List.foldl_cons, List.foldl_nil,
      h count (Nat.lt_succ_self count), hbefore]
    rcases Nat.lt_trichotomy j count with hlt | rfl | hgt
    · rw [if_neg (by omega), if_pos hlt, if_pos (by omega)]
    · rw [if_pos rfl, if_neg (Nat.lt_irrefl j), if_pos (Nat.lt_succ_self j)]
    · rw [if_neg (by omega), if_neg (by omega), if_neg (by omega)]

end Memory

/-! ### What the memories say -/

/-- The two-bit number that bit `bit` of two bytes makes. -/
def colourBits (lo hi : UInt8) (bit : Nat) : Nat :=
  lo.toNat / 2 ^ bit % 2 + 2 * (hi.toNat / 2 ^ bit % 2)

namespace Ppu

section
variable (p : Ppu) (cart : Cartridge) (x : Nat)

/-- Where a column of the screen lies in the two nametables that the line scrolls along. -/
def position : Nat := 8 * (p.vramAddress.toNat &&& 31) + p.fineX.toNat + x

/-- The nametable that a column shows. -/
def tableAt : Nat := (p.vramAddress.toNat >>> 10 &&& 3) ^^^ (if p.position x ≥ 256 then 1 else 0)

/-- The number of the tile that a column shows. -/
def tileAt : UInt8 :=
  let row := p.vramAddress.toNat >>> 5 &&& 31
  let column := p.position x / 8 % 32
  p.read cart (.ofNat (0x2000 + 0x400 * p.tableAt x + 32 * row + column))

/-- The attributes of that tile. -/
def attributesAt : Nat :=
  let row := p.vramAddress.toNat >>> 5 &&& 31
  let column := p.position x / 8 % 32
  let byte := p.read cart (.ofNat (0x2000 + 0x400 * p.tableAt x + 0x3C0 + 8 * (row / 4) + column / 4))
  byte.toNat >>> ((column &&& 2) + 2 * (row &&& 2)) &&& 3

/-- The colour of a column within its tile. -/
def colourAt : Nat :=
  let fineY := p.vramAddress.toNat >>> 12 &&& 7
  let pattern := p.backgroundBase.toNat + 16 * (p.tileAt cart x).toNat + fineY
  colourBits (p.read cart (.ofNat pattern)) (p.read cart (.ofNat (pattern + 8))) (7 - p.position x % 8)

/-- The pixel of a column. -/
def backgroundPixel : UInt8 := p.palette.read (4 * p.attributesAt cart x + p.colourAt cart x)

end

/-! ### The memories agree with the fetcher -/

theorem colourBits_lt (lo hi : UInt8) (bit : Nat) : colourBits lo hi bit < 4 := by
  unfold colourBits
  omega

theorem toNat_patternPixel (lo hi : UInt8) {px : Nat} (hpx : px < 8) :
    (patternPixel lo hi px).toNat = colourBits lo hi (7 - px) := by
  have hshift : (UInt8.ofNat (7 - px)).toNat % 8 = 7 - px := by
    rw [UInt8.toNat_ofNat']
    omega
  have hbit (byte : UInt8) :
      ((byte >>> UInt8.ofNat (7 - px)) &&& 1).toNat = byte.toNat / 2 ^ (7 - px) % 2 := by
    rw [UInt8.toNat_and, UInt8.toNat_shiftRight, hshift, Nat.shiftRight_eq_div_pow]
    exact Nat.and_two_pow_sub_one_eq_mod _ 1
  rw [patternPixel, UInt8.toNat_add, UInt8.toNat_mul, hbit, hbit, colourBits]
  simp
  omega

section
variable (p : Ppu) (cart : Cartridge) {x : Nat}

theorem position_eq (x : Nat) : p.position x = 8 * tileColumn p.vramAddress 0 + p.fineX.toNat + x := by
  rw [position, tileColumn]
  exact congrArg (8 * · + p.fineX.toNat + x) (Nat.and_two_pow_sub_one_eq_mod _ 5)

/-- The tile that a column shows. -/
theorem position_div (x : Nat) :
    p.position x / 8 = tileColumn p.vramAddress ((p.fineX.toNat + x) / 8) := by
  rw [position_eq, tileColumn, tileColumn]
  omega

theorem tableAt_eq (hx : p.fineX.toNat + x < 264) :
    p.tableAt x = tileTable p.vramAddress ((p.fineX.toNat + x) / 8) := by
  have hcolumn := p.position_div x
  have hside : (if p.position x ≥ 256 then 1 else 0) = p.position x / 8 / 32 % 2 := by
    rw [position_eq, tileColumn]
    split_ifs <;> omega
  rw [tableAt, hside, hcolumn, tileTable, Nat.shiftRight_eq_div_pow]
  exact congrArg (· ^^^ _) (Nat.and_two_pow_sub_one_eq_mod _ 2)

theorem coarseY_eq : p.vramAddress.toNat >>> 5 &&& 31 = tileRow p.vramAddress := by
  rw [Nat.shiftRight_eq_div_pow, tileRow]
  exact Nat.and_two_pow_sub_one_eq_mod _ 5

theorem tileAt_eq (hx : p.fineX.toNat + x < 264) :
    p.tileAt cart x = p.read cart (tileAddress p.vramAddress ((p.fineX.toNat + x) / 8)) := by
  simp only [tileAt, p.tableAt_eq hx, p.coarseY_eq, p.position_div, tileAddress]

theorem attributesAt_eq (hx : p.fineX.toNat + x < 264) :
    p.attributesAt cart x = (p.tileGroup cart ((p.fineX.toNat + x) / 8)).toNat := by
  have hbit (n : Nat) : n &&& 2 = 2 * (n / 2 % 2) := (and_field n 1 1).trans (Nat.mul_comm _ _)
  have hpair (n : Nat) : n % 32 / 2 % 2 = n / 2 % 2 := by omega
  have hshift : (attributeShift p.vramAddress ((p.fineX.toNat + x) / 8)).toNat % 8 =
      2 * (tileColumn p.vramAddress ((p.fineX.toNat + x) / 8) / 2 % 2) +
        2 * (2 * (tileRow p.vramAddress / 2 % 2)) := by
    rw [attributeShift, UInt8.toNat_ofNat']
    omega
  rw [tileGroup, UInt8.toNat_and, UInt8.toNat_shiftRight, hshift, attributeAddress]
  simp only [attributesAt, p.tableAt_eq hx, p.coarseY_eq, p.position_div, hbit, hpair]
  rfl

theorem toNat_backgroundRowAddress (tile : UInt8) : (p.backgroundRowAddress tile).toNat =
    p.backgroundBase.toNat + 16 * tile.toNat + (p.vramAddress.toNat >>> 12 &&& 7) := by
  have hfine : ((p.vramAddress >>> 12) &&& 7).toNat = p.vramAddress.toNat >>> 12 &&& 7 := by
    rw [UInt16.toNat_and, UInt16.toNat_shiftRight]
    rfl
  have hlow : p.vramAddress.toNat >>> 12 &&& 7 ≤ 7 := Nat.and_le_right
  have hbase : p.backgroundBase.toNat ≤ 0x1000 := by
    unfold backgroundBase
    split <;> decide
  have htile := tile.toNat_lt
  rw [backgroundRowAddress, UInt16.toNat_add, UInt16.toNat_add, UInt16.toNat_mul, hfine,
    UInt8.toNat_toUInt16]
  simp
  omega

theorem colourAt_eq (hx : p.fineX.toNat + x < 264) :
    let row := p.backgroundRowAddress (p.read cart (tileAddress p.vramAddress ((p.fineX.toNat + x) / 8)))
    p.colourAt cart x =
      (patternPixel (p.read cart row) (p.read cart (row + 8)) ((p.fineX.toNat + x) % 8)).toNat := by
  intro row
  have hrow : UInt16.ofNat (p.backgroundBase.toNat + 16 * (p.tileAt cart x).toNat +
      (p.vramAddress.toNat >>> 12 &&& 7)) = row := by
    rw [← toNat_backgroundRowAddress, UInt16.ofNat_toNat, p.tileAt_eq cart hx]
  have hbit : p.position x % 8 = (p.fineX.toNat + x) % 8 := by
    rw [position_eq]
    omega
  rw [toNat_patternPixel _ _ (Nat.mod_lt _ (by decide))]
  simp only [colourAt, UInt16.ofNat_add, hrow, hbit]
  rfl

end

/-! ### The drawn line -/

/-- A column of the screen, or of the tile right of it, lies within a line. -/
theorem column_lt_lineSize {x : Nat} (hx : x < 264) : lineMargin + x < lineSize := by
  simp only [lineMargin, lineSize]
  omega

theorem read_putTile (palette : Memory 32) {x a : Nat} (lo hi group : UInt8) (hx : x + 8 ≤ lineSize)
    (ha : a < lineSize) (line : Memory lineSize) :
    (putTile line palette x lo hi group).read a =
      if x ≤ a ∧ a < x + 8 then palette.read (group * 4 + patternPixel lo hi (a - x)).toNat
      else line.read a :=
  Memory.read_foldl_write (fun px => palette.read (group * 4 + patternPixel lo hi px).toNat) hx ha line

theorem read_fillLeft (p : Ppu) (value : UInt8) {a : Nat} (ha : a < lineSize) :
    (p.fillLeft value).line.read a = if 8 ≤ a ∧ a < 16 then value else p.line.read a :=
  Memory.read_foldl_write (fun _ => value) (by decide) ha p.line

theorem patternPixel_lt (lo hi : UInt8) {px : Nat} (hpx : px < 8) : (patternPixel lo hi px).toNat < 4 := by
  rw [toNat_patternPixel lo hi hpx]
  exact colourBits_lt lo hi _

theorem tileGroup_lt (p : Ppu) (cart : Cartridge) (k : Nat) : (p.tileGroup cart k).toNat < 4 := by
  rw [tileGroup, UInt8.toNat_and]
  exact Nat.lt_succ_of_le Nat.and_le_right

/-- The palette entry of a colour in its group. -/
theorem toNat_entry {group colour : UInt8} (hgroup : group.toNat < 4) (hcolour : colour.toNat < 4) :
    (group * 4 + colour).toNat = 4 * group.toNat + colour.toNat := by
  rw [UInt8.toNat_add, UInt8.toNat_mul]
  simp
  omega

/-- The line with tile `k` drawn into it. -/
def withTile (p : Ppu) (cart : Cartridge) (line : Memory lineSize) (k : Nat) : Memory lineSize :=
  let row := p.backgroundRowAddress (p.read cart (tileAddress p.vramAddress k))
  putTile line p.palette (lineMargin - p.fineX.toNat + 8 * k) (p.read cart row) (p.read cart (row + 8))
    (p.tileGroup cart k)

/-- The tiles of a line show what the memories say, as far as the last one reaches. -/
theorem read_tiles (p : Ppu) (cart : Cartridge) (hfine : p.fineX.toNat ≤ 8) {x : Nat} (hx : x < 264)
    (line : Memory lineSize) :
    ((List.range 33).foldl (p.withTile cart) line).read (lineMargin + x) =
      if p.fineX.toNat + x < 264 then p.backgroundPixel cart x else line.read (lineMargin + x) := by
  have htouched : ∀ k < 33, ∀ m : Memory lineSize, (p.withTile cart m k).read (lineMargin + x) =
      if k = (p.fineX.toNat + x) / 8 then p.backgroundPixel cart x else m.read (lineMargin + x) := by
    intro k hk m
    have hstart : lineMargin - p.fineX.toNat + 8 * k + 8 ≤ lineSize := by
      simp only [lineMargin, lineSize]
      omega
    rw [withTile, read_putTile _ _ _ _ hstart (column_lt_lineSize hx)]
    by_cases hmine : k = (p.fineX.toNat + x) / 8
    · have hcolumn : lineMargin + x - (lineMargin - p.fineX.toNat + 8 * k) = (p.fineX.toNat + x) % 8 := by
        simp only [lineMargin]
        omega
      have hreach : p.fineX.toNat + x < 264 := by omega
      rw [if_pos hmine, if_pos (by simp only [lineMargin]; omega), hcolumn, backgroundPixel,
        p.attributesAt_eq cart hreach, p.colourAt_eq cart hreach, ← hmine,
        toNat_entry (p.tileGroup_lt cart k) (patternPixel_lt _ _ (Nat.mod_lt _ (by decide)))]
    · rw [if_neg hmine, if_neg (by simp only [lineMargin]; omega)]
  rw [Memory.read_foldl_touched (g := fun _ => p.backgroundPixel cart x) htouched]
  congr 1
  apply propext
  omega

section
variable (p : Ppu) {board : Option Board} (hboard : ∀ b, board = some b → b.number ≠ 9) (cart : Cartridge)
include hboard

/-- Drawing a tile changes the line only. -/
theorem drawTile_line (line : Memory lineSize) (k : Nat) :
    drawTile cart ({ p with line }, board) k = ({ p with line := p.withTile cart line k }, board) := by
  rw [drawTile, paintTile, drawn_plain _ hboard]
  rfl

theorem foldl_drawTile (tiles : List Nat) (line : Memory lineSize) :
    tiles.foldl (drawTile cart) ({ p with line }, board) =
      ({ p with line := tiles.foldl (p.withTile cart) line }, board) := by
  induction tiles generalizing line with
  | nil => rfl
  | cons k tiles ih => rw [List.foldl_cons, List.foldl_cons, p.drawTile_line hboard, ih]

/-- The background of a line changes the line only. -/
theorem drawBackground_line (hon : p.backgroundOn = true) :
    p.drawBackground board cart =
      (let tiles : Ppu := { p with line := (List.range 33).foldl (p.withTile cart) p.line }
        if p.backgroundLeft then tiles else tiles.fillLeft p.backdrop, board) := by
  have htiles : (List.range 33).foldl (drawTile cart) (p, board) =
      ({ p with line := (List.range 33).foldl (p.withTile cart) p.line }, board) :=
    p.foldl_drawTile hboard cart (List.range 33) p.line
  rw [drawBackground_eq, hon, htiles]
  generalize (List.range 33).foldl (p.withTile cart) p.line = line
  rfl

/-- The background's pixels, on the screen and right of it. -/
theorem read_drawBackground (hon : p.backgroundOn = true) (hfine : p.fineX.toNat ≤ 8) {x : Nat}
    (hx : x < 264) :
    (p.drawBackground board cart).1.line.read (lineMargin + x) =
      if x < 8 ∧ p.backgroundLeft = false then p.backdrop
      else if p.fineX.toNat + x < 264 then p.backgroundPixel cart x
      else p.line.read (lineMargin + x) := by
  have htiles := p.read_tiles cart hfine hx p.line
  rw [p.drawBackground_line hboard cart hon]
  generalize (List.range 33).foldl (p.withTile cart) p.line = line at htiles ⊢
  simp only
  cases hleft : p.backgroundLeft with
  | true =>
    rw [if_pos rfl, if_neg (by simp)]
    exact htiles
  | false =>
    rw [if_neg Bool.false_ne_true, read_fillLeft _ _ (column_lt_lineSize hx), htiles]
    congr 1
    simp only [lineMargin]
    apply propext
    simp
    omega

/-- With the background shown, each column of the screen holds the palette entry that the nametable under it
and its attributes and pattern choose; the leftmost eight may be blanked. -/
theorem background_per_pixel (hon : p.backgroundOn = true) (hfine : p.fineX.toNat ≤ 7) {x : Nat}
    (hx : x < 256) :
    (p.drawBackground board cart).1.line.read (lineMargin + x) =
      if x < 8 ∧ p.backgroundLeft = false then p.palette.read 0 ||| 0x80
      else p.palette.read (4 * p.attributesAt cart x + p.colourAt cart x) := by
  have hreach : p.fineX.toNat + x < 264 := by omega
  rw [p.read_drawBackground hboard cart hon (Nat.le_succ_of_le hfine) (by omega), if_pos hreach]
  rfl

end

/-- A line that starts at the last but one column of the second nametable, three pixels further right. -/
def edge : Ppu :=
  { powerOn with
    mask := 0x0A
    vramAddress := 0x041E
    fineX := 3
    pages := (PageTable.blank.mapChr 0x2000 8 0 0).mirror 0 1 0 1
    nametables := Memory.filled 0x1000 0xE4
    palette := Memory.ofList 32 ((List.range 32).map UInt8.ofNat) }

theorem background_per_pixel_across : edge.backgroundOn = true ∧ edge.fineX.toNat ≤ 7 ∧
    edge.tableAt 0 = 1 ∧ edge.tableAt 255 = 0 ∧
    (edge.drawBackground none { chr := #[0xF0] }).1.line.read (lineMargin + 255) = 7 := by
  have hon : edge.backgroundOn = true := by decide
  have hfine : edge.fineX.toNat ≤ 7 := by decide
  refine ⟨hon, hfine, by decide, by decide, ?_⟩
  rw [edge.background_per_pixel (by simp) { chr := #[0xF0] } hon hfine (by decide)]
  decide +kernel

end Ppu

end Famicom
