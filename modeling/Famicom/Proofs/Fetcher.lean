import Famicom.Ppu.Background
import Famicom.Proofs.Bitfields
import Famicom.Proofs.Windows
import Mathlib.Tactic.SplitIfs

/-!
Where each tile of a line comes from. The fetcher only ever moves on, but what it holds before tile `k` is a
function of `k` and the address that the line starts from (`Fetcher.At`):

    column     0 …………………… 31 │ 32 …………………… 63     coarse x + k
    table           table         │      table ^^^ 1
    cell            column        │      column - 32

So the 33 tiles may be drawn each by itself (`drawTile`), and the background is those tiles
(`drawBackground_eq`).
-/

namespace Famicom

namespace Ppu

/-! ### Where a tile comes from -/

/-- The column of tile `k`, counted from the left edge of the line's first nametable. -/
def tileColumn (v : UInt16) (k : Nat) : Nat := v.toNat % 32 + k

/-- The row of nametable cells that a line crosses. -/
def tileRow (v : UInt16) : Nat := v.toNat / 32 % 32

/-- The nametable of tile `k`: past a last column, the horizontal neighbour's. -/
def tileTable (v : UInt16) (k : Nat) : Nat := v.toNat / 0x400 % 4 ^^^ tileColumn v k / 32 % 2

/-- Where the number of tile `k` lies. -/
def tileAddress (v : UInt16) (k : Nat) : UInt16 :=
  UInt16.ofNat (0x2000 + 0x400 * tileTable v k + 32 * tileRow v + tileColumn v k % 32)

/-- Where the attributes of tile `k` and its neighbours lie. -/
def attributeAddress (v : UInt16) (k : Nat) : UInt16 :=
  UInt16.ofNat
    (0x2000 + 0x400 * tileTable v k + 0x3C0 + 8 * (tileRow v / 4) + tileColumn v k % 32 / 4)

/-- Which two bits of an attribute byte are those of tile `k`. -/
def attributeShift (v : UInt16) (k : Nat) : UInt8 :=
  UInt8.ofNat (2 * (tileColumn v k / 2 % 2) + 4 * (tileRow v / 2 % 2))

/-- The group of four colours that tile `k` is drawn in. -/
def tileGroup (p : Ppu) (cart : Cartridge) (k : Nat) : UInt8 :=
  (p.read cart (attributeAddress p.vramAddress k) >>> attributeShift p.vramAddress k) &&& 3

/-- Draws tile `k` by itself. -/
def drawTile (cart : Cartridge) (s : Ppu × Option Board) (k : Nat) : Ppu × Option Board :=
  s.1.paintTile s.2 cart k (s.1.read cart (tileAddress s.1.vramAddress k)) (s.1.tileGroup cart k)

end Ppu

/-! ### The fetcher on its way -/

open Ppu

/-- What the fetcher holds before tile `k` of the line that starts at `v`. -/
structure Fetcher.At (p : Ppu) (cart : Cartridge) (v : UInt16) (k : Nat) (f : Fetcher) : Prop where
  row : f.row.toNat = 0x2000 + 0x400 * tileTable v k + 32 * tileRow v
  attributeRow : f.attributeRow.toNat = 0x2000 + 0x400 * tileTable v k + 0x3C0 + 8 * (tileRow v / 4)
  column : f.column.toNat = tileColumn v k % 32
  tile : f.tile = tileAddress v k
  nextAttributes : f.nextAttributes = attributeAddress v k + 1
  attributes : f.attributes = p.read cart (attributeAddress v k)
  shift : f.shift = attributeShift v k

namespace Ppu

variable (v : UInt16) (k : Nat)

theorem tileRow_lt : tileRow v < 32 := Nat.mod_lt _ (by decide)

theorem tileTable_lt : tileTable v k < 4 := by
  unfold tileTable
  have htable : v.toNat / 0x400 % 4 < 2 ^ 2 := Nat.mod_lt _ (by decide)
  have hside : tileColumn v k / 32 % 2 < 2 ^ 2 := by omega
  exact Nat.xor_lt_two_pow htable hside

theorem toNat_tileAddress :
    (tileAddress v k).toNat = 0x2000 + 0x400 * tileTable v k + 32 * tileRow v + tileColumn v k % 32 := by
  have htable := tileTable_lt v k
  have hrow := tileRow_lt v
  rw [tileAddress, UInt16.toNat_ofNat']
  omega

theorem toNat_attributeAddress : (attributeAddress v k).toNat =
    0x2000 + 0x400 * tileTable v k + 0x3C0 + 8 * (tileRow v / 4) + tileColumn v k % 32 / 4 := by
  have htable := tileTable_lt v k
  have hrow := tileRow_lt v
  rw [attributeAddress, UInt16.toNat_ofNat']
  omega

theorem tileColumn_succ : tileColumn v (k + 1) = tileColumn v k + 1 := rfl

/-- Inside a nametable the next tile is one of the same. -/
theorem tileTable_inside (h : tileColumn v k % 32 ≠ 31) : tileTable v (k + 1) = tileTable v k := by
  have hside : tileColumn v (k + 1) / 32 = tileColumn v k / 32 := by
    rw [tileColumn_succ]
    omega
  rw [tileTable, hside, tileTable]

/-- Past the last column it is one of the neighbour. -/
theorem tileTable_across (h : tileColumn v k % 32 = 31) : tileTable v (k + 1) = tileTable v k ^^^ 1 := by
  have hside : tileColumn v (k + 1) / 32 % 2 = tileColumn v k / 32 % 2 ^^^ 1 := by
    rw [tileColumn_succ]
    rcases Nat.mod_two_eq_zero_or_one (tileColumn v k / 32) with heven | hodd
    · rw [heven, show (0 : Nat) ^^^ 1 = 1 from rfl]
      omega
    · rw [hodd, show (1 : Nat) ^^^ 1 = 0 from rfl]
      omega
  rw [tileTable, hside, tileTable, Nat.xor_assoc]


theorem flipped_table {t : Nat} (h : t < 4) : t ^^^ 1 = if t % 2 = 0 then t + 1 else t - 1 := by
  revert t
  decide

/-! ### The start of a line -/

theorem tileTable_zero : tileTable v 0 = v.toNat / 0x400 % 4 := by
  have hside : tileColumn v 0 / 32 % 2 = 0 := by
    unfold tileColumn
    omega
  rw [tileTable, hside, Nat.xor_zero]

theorem toNat_coarseX : (v &&& 0x1F).toNat = tileColumn v 0 := by
  rw [toNat_and_field v 0 5 rfl]
  simp [tileColumn]

theorem toNat_coarseY : ((v >>> 5) &&& 0x1F).toNat = tileRow v := by
  rw [toNat_and_field (v >>> 5) 0 5 rfl, UInt16.toNat_shiftRight]
  simp [tileRow, Nat.shiftRight_eq_div_pow]

theorem toNat_firstCell : (0x2000 + (v &&& 0x0FE0) : UInt16).toNat =
    0x2000 + 0x400 * tileTable v 0 + 32 * tileRow v := by
  rw [UInt16.toNat_add, toNat_and_field v 5 7 rfl, tileTable_zero, tileRow]
  simp
  omega

theorem toNat_tablePart {row : UInt16} {table cell : Nat} (htable : table < 4) (hcell : cell < 0x400)
    (hrow : row.toNat = 0x2000 + 0x400 * table + cell) :
    (row &&& 0x2C00).toNat = 0x2000 + 0x400 * table := by
  have hmask : row &&& 0x2C00 = row &&& (0x2000 ||| 0x0C00) := rfl
  rw [hmask, toNat_and_or row (by rfl), toNat_and_field row 13 1 rfl, toNat_and_field row 10 2 rfl]
  omega

theorem toNat_attributeLine {y : UInt16} (hy : y.toNat < 32) :
    ((y &&& 0x1C) <<< 1).toNat = 8 * (y.toNat / 4) := by
  rw [UInt16.toNat_shiftLeft, toNat_and_field y 2 3 rfl]
  simp [Nat.shiftLeft_eq]
  omega

theorem toNat_lowerPair (y : UInt16) : ((y &&& 2) <<< 1).toNat = 4 * (y.toNat / 2 % 2) := by
  rw [UInt16.toNat_shiftLeft, toNat_and_field y 1 1 rfl]
  simp [Nat.shiftLeft_eq]
  omega

/-- The fetcher starts before tile 0. -/
theorem fetcher_at (p : Ppu) (cart : Cartridge) : (p.fetcher cart).At p cart p.vramAddress 0 := by
  generalize hv : p.vramAddress = v
  have hcolumn := toNat_coarseX v
  have hy := toNat_coarseY v
  have hrow := toNat_firstCell v
  have htable := tileTable_lt v 0
  have hylt := tileRow_lt v
  have hcoarse : tileColumn v 0 < 32 := by
    unfold tileColumn
    omega
  have hattributeRow : (p.fetcher cart).attributeRow.toNat =
      0x2000 + 0x400 * tileTable v 0 + 0x3C0 + 8 * (tileRow v / 4) := by
    simp only [fetcher, hv]
    rw [UInt16.toNat_add, UInt16.toNat_add, toNat_tablePart htable (by omega) hrow,
      toNat_attributeLine (by omega), hy]
    simp
    omega
  have hfirst : (p.fetcher cart).attributeRow + ((v &&& 0x1F) >>> 2) = attributeAddress v 0 := by
    rw [← UInt16.toNat_inj, toNat_attributeAddress, UInt16.toNat_add, UInt16.toNat_shiftRight, hcolumn,
      hattributeRow]
    simp [Nat.shiftRight_eq_div_pow]
    omega
  constructor
  · simp only [fetcher, hv]
    exact hrow
  · exact hattributeRow
  · simp only [fetcher, hv]
    omega
  · simp only [fetcher, hv]
    rw [← UInt16.toNat_inj, toNat_tileAddress, UInt16.toNat_add, hrow, hcolumn]
    omega
  · rw [← hfirst]
    simp only [fetcher, hv]
  · rw [← hfirst]
    simp only [fetcher, hv]
  · simp only [fetcher, hv]
    rw [← UInt8.toNat_inj, attributeShift, UInt16.toNat_toUInt8, UInt16.toNat_add,
      toNat_and_field _ 1 1 rfl, toNat_lowerPair, hy, hcolumn, UInt8.toNat_ofNat']
    omega

/-! ### From tile to tile -/

section
variable {v k}

theorem tileAddress_succ (h : tileColumn v k % 32 ≠ 31) : tileAddress v (k + 1) = tileAddress v k + 1 := by
  have htable := tileTable_lt v k
  have hrow := tileRow_lt v
  rw [← UInt16.toNat_inj, UInt16.toNat_add, toNat_tileAddress, toNat_tileAddress, tileTable_inside v k h,
    tileColumn_succ]
  simp
  omega

/-- Four tiles share an attribute byte. -/
theorem attributeAddress_same (h : tileColumn v k % 4 ≠ 3) :
    attributeAddress v (k + 1) = attributeAddress v k := by
  rw [← UInt16.toNat_inj, toNat_attributeAddress, toNat_attributeAddress,
    tileTable_inside v k (by omega), tileColumn_succ]
  omega

theorem attributeAddress_succ (h : tileColumn v k % 4 = 3) (hinside : tileColumn v k % 32 ≠ 31) :
    attributeAddress v (k + 1) = attributeAddress v k + 1 := by
  have htable := tileTable_lt v k
  have hrow := tileRow_lt v
  rw [← UInt16.toNat_inj, UInt16.toNat_add, toNat_attributeAddress, toNat_attributeAddress,
    tileTable_inside v k hinside, tileColumn_succ]
  simp
  omega

/-- Two tiles share a pair of bits. -/
theorem attributeShift_same (h : tileColumn v k % 2 = 0) : attributeShift v (k + 1) = attributeShift v k := by
  have hpair : (tileColumn v k + 1) / 2 = tileColumn v k / 2 := by omega
  rw [attributeShift, tileColumn_succ, hpair, attributeShift]

theorem attributeShift_other (h : tileColumn v k % 2 = 1) :
    attributeShift v (k + 1) = attributeShift v k ^^^ 2 := by
  have hpair : (tileColumn v k + 1) / 2 % 2 = 1 - tileColumn v k / 2 % 2 := by omega
  rw [attributeShift, tileColumn_succ, hpair, attributeShift]
  rcases Nat.mod_two_eq_zero_or_one (tileColumn v k / 2) with hleft | hright <;>
    rcases Nat.mod_two_eq_zero_or_one (tileRow v / 2) with hupper | hlower <;>
    simp only [*] <;> rfl

/-- The same cell of the horizontal neighbour. -/
theorem toNat_neighbour {cell : UInt16} {table offset : Nat} (htable : table < 4) (hoffset : offset < 0x400)
    (hcell : cell.toNat = 0x2000 + 0x400 * table + offset) :
    (cell ^^^ 0x400).toNat = 0x2000 + 0x400 * (table ^^^ 1) + offset := by
  rw [toNat_xor_bit cell 10 rfl, flipped_table htable, hcell]
  split_ifs <;> omega

end

/-! ### What one step does -/

section
variable {p : Ppu} {cart : Cartridge} {f : Fetcher}

theorem advance_within (hodd : (f.column + 1) &&& 1 ≠ 0) :
    p.advance cart f = { f with column := f.column + 1, tile := f.tile + 1 } := if_pos hodd

theorem advance_pair (heven : (f.column + 1) &&& 1 = 0) (hwithin : (f.column + 1) &&& 3 ≠ 0) :
    p.advance cart f =
      { f with column := f.column + 1, tile := f.tile + 1, shift := f.shift ^^^ 2 } := by
  simp only [advance, heven, ne_eq, not_true, if_false, if_neg hwithin]

theorem advance_byte (heven : (f.column + 1) &&& 1 = 0) (hfour : (f.column + 1) &&& 3 = 0)
    (hinside : f.column + 1 ≠ 32) :
    p.advance cart f = { f with
      column := f.column + 1
      tile := f.tile + 1
      nextAttributes := f.nextAttributes + 1
      attributes := p.read cart f.nextAttributes
      shift := f.shift ^^^ 2 } := by
  simp only [advance, heven, hfour, ne_eq, not_true, if_false, if_true, Fetcher.cross, if_neg hinside,
    readAttribute]

theorem advance_cross (hedge : f.column + 1 = 32) :
    p.advance cart f =
      { column := 0
        row := f.row ^^^ 0x400
        attributeRow := f.attributeRow ^^^ 0x400
        tile := f.row ^^^ 0x400
        nextAttributes := (f.attributeRow ^^^ 0x400) + 1
        attributes := p.read cart (f.attributeRow ^^^ 0x400)
        shift := f.shift ^^^ 2 } := by
  have heven : (32 : UInt16) &&& 1 = 0 := rfl
  have hfour : (32 : UInt16) &&& 3 = 0 := rfl
  simp only [advance, hedge, heven, hfour, ne_eq, not_true, if_false, if_true, Fetcher.cross, readAttribute]

end

end Ppu

namespace Fetcher.At

variable {p : Ppu} {cart : Cartridge} {v : UInt16} {k : Nat} {f : Fetcher}

theorem toNat_next (h : f.At p cart v k) : (f.column + 1).toNat = tileColumn v k % 32 + 1 := by
  rw [UInt16.toNat_add, h.column]
  simp
  omega

/-- Inside a nametable the row stays. -/
theorem inside (h : f.At p cart v k) (hinside : tileColumn v k % 32 ≠ 31) :
    f.row.toNat = 0x2000 + 0x400 * tileTable v (k + 1) + 32 * tileRow v ∧
      f.attributeRow.toNat = 0x2000 + 0x400 * tileTable v (k + 1) + 0x3C0 + 8 * (tileRow v / 4) ∧
      (f.column + 1).toNat = tileColumn v (k + 1) % 32 ∧ f.tile + 1 = tileAddress v (k + 1) := by
  rw [tileTable_inside v k hinside, h.toNat_next, h.tile, tileAddress_succ hinside, tileColumn_succ]
  exact ⟨h.row, h.attributeRow, by omega, rfl⟩

/-- Past its last column, the fetcher is at the same row of the neighbour. -/
theorem across (h : f.At p cart v k) (hlast : tileColumn v k % 32 = 31) :
    (f.row ^^^ 0x400).toNat = 0x2000 + 0x400 * tileTable v (k + 1) + 32 * tileRow v ∧
      (f.attributeRow ^^^ 0x400).toNat =
        0x2000 + 0x400 * tileTable v (k + 1) + 0x3C0 + 8 * (tileRow v / 4) ∧
      f.row ^^^ 0x400 = tileAddress v (k + 1) ∧ f.attributeRow ^^^ 0x400 = attributeAddress v (k + 1) := by
  have htable := tileTable_lt v k
  have hrow := tileRow_lt v
  have hcolumn : tileColumn v (k + 1) % 32 = 0 := by
    rw [tileColumn_succ]
    omega
  have hcells : (f.row ^^^ 0x400).toNat = 0x2000 + 0x400 * tileTable v (k + 1) + 32 * tileRow v := by
    rw [tileTable_across v k hlast]
    exact toNat_neighbour htable (by omega) h.row
  have hattributes : (f.attributeRow ^^^ 0x400).toNat =
      0x2000 + 0x400 * tileTable v (k + 1) + 0x3C0 + 8 * (tileRow v / 4) := by
    rw [tileTable_across v k hlast, Nat.add_assoc _ 0x3C0]
    exact toNat_neighbour htable (by omega) (h.attributeRow.trans (Nat.add_assoc _ _ _))
  refine ⟨hcells, hattributes, ?_, ?_⟩
  · rw [← UInt16.toNat_inj, hcells, toNat_tileAddress, hcolumn]
    rfl
  · rw [← UInt16.toNat_inj, hattributes, toNat_attributeAddress, hcolumn]
    rfl

/-- The fetcher is before the next tile once it has advanced. -/
theorem advance (h : f.At p cart v k) : (p.advance cart f).At p cart v (k + 1) := by
  have hnext := h.toNat_next
  have hpair : (f.column + 1) &&& 1 = 0 ↔ tileColumn v k % 2 = 1 := by
    rw [← UInt16.toNat_inj, toNat_and_field _ 0 1 rfl, hnext]
    simp
    omega
  have hfour : (f.column + 1) &&& 3 = 0 ↔ tileColumn v k % 4 = 3 := by
    rw [← UInt16.toNat_inj, toNat_and_field _ 0 2 rfl, hnext]
    simp
    omega
  rcases (by omega : tileColumn v k % 2 = 0 ∨ tileColumn v k % 4 = 1 ∨
      (tileColumn v k % 4 = 3 ∧ tileColumn v k % 32 ≠ 31) ∨ tileColumn v k % 32 = 31) with
    heven | hsecond | ⟨hfourth, hinside⟩ | hlast
  · -- the second tile of a pair
    obtain ⟨hrow, hattributeRow, hcolumn, htile⟩ := h.inside (by omega)
    rw [advance_within (fun hodd => by have := hpair.mp hodd; omega)]
    refine ⟨hrow, hattributeRow, hcolumn, htile, ?_, ?_, ?_⟩
    · rw [attributeAddress_same (by omega), h.nextAttributes]
    · rw [attributeAddress_same (by omega), h.attributes]
    · rw [attributeShift_same heven, h.shift]
  · -- the second pair under an attribute byte
    obtain ⟨hrow, hattributeRow, hcolumn, htile⟩ := h.inside (by omega)
    rw [advance_pair (hpair.mpr (by omega)) (fun hthird => by have := hfour.mp hthird; omega)]
    refine ⟨hrow, hattributeRow, hcolumn, htile, ?_, ?_, ?_⟩
    · rw [attributeAddress_same (by omega), h.nextAttributes]
    · rw [attributeAddress_same (by omega), h.attributes]
    · rw [attributeShift_other (by omega), h.shift]
  · -- the next attribute byte
    obtain ⟨hrow, hattributeRow, hcolumn, htile⟩ := h.inside hinside
    have hedge : f.column + 1 ≠ 32 := by
      rw [Ne, ← UInt16.toNat_inj, hnext]
      simp
      omega
    rw [advance_byte (hpair.mpr (by omega)) (hfour.mpr hfourth) hedge]
    refine ⟨hrow, hattributeRow, hcolumn, htile, ?_, ?_, ?_⟩
    · rw [attributeAddress_succ hfourth hinside, h.nextAttributes]
    · rw [attributeAddress_succ hfourth hinside, h.nextAttributes]
    · rw [attributeShift_other (by omega), h.shift]
  · -- the neighbouring nametable
    obtain ⟨hrow, hattributeRow, htile, hattributes⟩ := h.across hlast
    have hedge : f.column + 1 = 32 := by
      rw [← UInt16.toNat_inj, hnext, hlast]
      rfl
    have hcolumn : 0 = tileColumn v (k + 1) % 32 := by
      rw [tileColumn_succ]
      omega
    rw [advance_cross hedge]
    refine ⟨hrow, hattributeRow, hcolumn, htile, ?_, ?_, ?_⟩
    · rw [hattributes]
    · rw [hattributes]
    · rw [attributeShift_other (by omega), h.shift]

end Fetcher.At

/-! ### The background, tile by tile -/

namespace Ppu

theorem fits_backgroundBase (p : Ppu) : FitsPattern 4 p.backgroundBase := by
  unfold backgroundBase
  split <;> decide

/-- A drawn tile moves none of the nametables. -/
theorem read_drawn (p : Ppu) (board : Option Board) (cart : Cartridge) {base : UInt16} (tile : UInt8)
    (hbase : FitsPattern 4 base) {address : UInt16} (hlow : 0x2000 ≤ address.toNat)
    (hhigh : address.toNat < 0x4000) :
    (p.drawn board cart base tile).1.read cart address = p.read cart address := by
  unfold drawn
  split
  · rfl
  · simp only
    split
    · rfl
    · simp only [read, page_mapChr_high hbase _ (by omega : 8 ≤ address.toNat / 0x400) (by omega)]

theorem read_line (p : Ppu) (cart : Cartridge) (line : Memory lineSize) (address : UInt16) :
    ({ p with line } : Ppu).read cart address = p.read cart address := rfl

theorem read_paintTile (p : Ppu) (board : Option Board) (cart : Cartridge) (k : Nat) (tile group : UInt8)
    {address : UInt16} (hlow : 0x2000 ≤ address.toNat) (hhigh : address.toNat < 0x4000) :
    (p.paintTile board cart k tile group).1.read cart address = p.read cart address :=
  (read_line _ cart _ address).trans (p.read_drawn board cart tile p.fits_backgroundBase hlow hhigh)

/-- Nor does it move the address that the line starts from. -/
theorem vramAddress_paintTile (p : Ppu) (board : Option Board) (cart : Cartridge) (k : Nat)
    (tile group : UInt8) : (p.paintTile board cart k tile group).1.vramAddress = p.vramAddress := by
  simp only [paintTile, drawn]
  split
  · rfl
  · split <;> rfl

/-- The fetcher at hand is before tile `k`, and the picture is the one that the tiles by themselves drew. -/
structure Fetched (cart : Cartridge) (v : UInt16) (k : Nat) (s : Ppu × Option Board × Fetcher)
    (t : Ppu × Option Board) : Prop where
  picture : (s.1, s.2.1) = t
  start : s.1.vramAddress = v
  fetcher : s.2.2.At s.1 cart v k

/-- Fetching a tile draws what the tile by itself draws. -/
theorem Fetched.step {cart : Cartridge} {v : UInt16} {k : Nat} {s : Ppu × Option Board × Fetcher}
    {t : Ppu × Option Board} (h : Fetched cart v k s t) :
    Fetched cart v (k + 1) (fetchTile cart s k) (drawTile cart t k) := by
  obtain ⟨p, board, f⟩ := s
  obtain ⟨rfl, hstart, hf⟩ := h
  simp only at hstart hf
  have htile : f.tile = tileAddress p.vramAddress k := by rw [hf.tile, hstart]
  have hgroup : f.group = p.tileGroup cart k := by
    rw [Fetcher.group, hf.attributes, hf.shift, tileGroup, hstart]
  have hattributes := toNat_attributeAddress v k
  have htable := tileTable_lt v k
  have hrow := tileRow_lt v
  have hread : (p.paintTile board cart k (p.read cart f.tile) f.group).1.read cart (attributeAddress v k) =
      p.read cart (attributeAddress v k) :=
    p.read_paintTile board cart k _ _ (by omega) (by omega)
  have haddress := p.vramAddress_paintTile board cart k (p.read cart f.tile) f.group
  have hpicture : p.paintTile board cart k (p.read cart f.tile) f.group = drawTile cart (p, board) k := by
    rw [drawTile, htile, hgroup]
  simp only [fetchTile]
  generalize p.paintTile board cart k (p.read cart f.tile) f.group = q at hread haddress hpicture
  exact ⟨hpicture, haddress.trans hstart, { hf with attributes := hf.attributes.trans hread.symm }.advance⟩

theorem fetched_foldl (p : Ppu) (board : Option Board) (cart : Cartridge) (count : Nat) :
    Fetched cart p.vramAddress count
      ((List.range count).foldl (fetchTile cart) (p, board, p.fetcher cart))
      ((List.range count).foldl (drawTile cart) (p, board)) := by
  induction count with
  | zero => exact ⟨rfl, rfl, p.fetcher_at cart⟩
  | succ count ih =>
    rw [List.range_succ, List.foldl_append, List.foldl_append]
    exact ih.step

/-- The background is its tiles, each drawn by itself. -/
theorem drawBackground_eq (p : Ppu) (board : Option Board) (cart : Cartridge) :
    p.drawBackground board cart =
      if !p.backgroundOn then ({ p with line := Memory.filled lineSize p.backdrop }, board)
      else
        let (p, board) := (List.range 33).foldl (drawTile cart) (p, board)
        (if p.backgroundLeft then p else p.fillLeft p.backdrop, board) := by
  have hpicture := (p.fetched_foldl board cart 33).picture
  unfold drawBackground
  rw [← hpicture]

end Ppu

end Famicom
