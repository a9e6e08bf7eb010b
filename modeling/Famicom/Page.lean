/-!
Address spaces are windows. The CPU sees sixteen windows of 4KB, the picture unit sixteen of 1KB, and
each window shows a page: a region of memory and an offset into it.

    CPU   $0000  RAM      $6000-$7FFF  battery RAM (or ROM on some boards)
          $1000-$5FFF     dead, decoded by the bus     $8000-$FFFF  program ROM, in 8KB pairs
    PPU   $0000-$1FFF     pattern ROM or RAM           $2000-$2FFF  four nametables
          $3000-$3FFF     the same four again

A board moves windows in banks: consecutive windows onto consecutive pages of program or pattern ROM.
Bank numbers wrap around the number of banks, negative ones from the end, so the last bank is
always number -1.
-/

namespace Famicom

/-- What a window shows. -/
inductive Region where
  | dead | ram | prg | chr | sram | vram | nametable
  deriving DecidableEq, Repr, Inhabited

/-- A region and the offset at which a window looks into it. -/
structure Page where
  region : Region
  offset : Nat
  deriving DecidableEq, Repr, Inhabited

/-- A window that shows nothing. -/
def Page.dead : Page := ⟨.dead, 0⟩

/-- The sixteen windows of an address space. -/
abbrev PageTable := Vector Page 16

/-- The physical bank that a bank number selects out of `count`: numbers wrap, negative ones from the end. -/
def wrapBank (bank : Int) (count : Nat) : Nat := (bank % (max count 1 : Nat)).toNat

theorem wrapBank_lt (bank : Int) (count : Nat) : wrapBank bank count < max count 1 := by
  unfold wrapBank
  have h := Int.emod_lt_of_pos bank (show (0 : Int) < ((max count 1 : Nat) : Int) by omega)
  have h0 := Int.emod_nonneg bank (show ((max count 1 : Nat) : Int) ≠ 0 by omega)
  omega

theorem wrapBank_natCast (n count : Nat) : wrapBank (n : Int) count = n % max count 1 := by
  simp only [wrapBank, ← Int.natCast_emod, Int.toNat_natCast]

/-- A bank fits into its ROM, unless the ROM is smaller than one bank. -/
theorem wrapBank_mul_add_le (bank : Int) (total size : Nat) :
    wrapBank bank (total / size) * size + size ≤ max total size := by
  have h := wrapBank_lt bank (total / size)
  rcases Nat.eq_zero_or_pos (total / size) with h0 | h0
  · rw [h0] at h ⊢
    have : wrapBank bank 0 = 0 := by omega
    rw [this]
    omega
  · have h1 : wrapBank bank (total / size) + 1 ≤ total / size := by omega
    have h2 := Nat.mul_le_mul_right size h1
    have h3 := Nat.div_mul_le_self total size
    rw [Nat.add_mul, Nat.one_mul] at h2
    omega

namespace PageTable

/-- A table of dead windows. -/
def blank : PageTable := Vector.replicate 16 Page.dead

/-- The page of a window; window numbers wrap at sixteen. -/
def page (t : PageTable) (window : Nat) : Page := t[window % 16]

/-- Changes one window; a number past the last window changes nothing. -/
def put (t : PageTable) (window : Nat) (p : Page) : PageTable := t.setIfInBounds window p

/-- Points `count` consecutive windows at consecutive pages of a region. -/
def fill (t : PageTable) (first : Nat) (region : Region) (base step : Nat) : Nat → PageTable
  | 0 => t
  | count + 1 => (fill t first region base step count).put (first + count) ⟨region, base + count * step⟩

/-- Shows bank number `bank` of `kb` kilobytes of program ROM at a CPU address. -/
def mapPrg (t : PageTable) (prgSize kb : Nat) (address : UInt16) (bank : Int) : PageTable :=
  let size := kb * 1024
  t.fill (address.toNat / 0x1000) .prg (wrapBank bank (prgSize / size) * size) 0x1000 (size / 0x1000)

/-- Shows bank number `bank` of `kb` kilobytes of pattern ROM at a picture address. Without pattern ROM
nothing moves. -/
def mapChr (t : PageTable) (chrSize kb : Nat) (address : UInt16) (bank : Int) : PageTable :=
  if chrSize = 0 then t else
    let size := kb * 1024
    t.fill (address.toNat % 0x2000 / 0x400) .chr (wrapBank bank (chrSize / size) * size) 0x400
      (size / 0x400)

/-- The upper four windows repeat the nametable windows. -/
def repeatNametables (t : PageTable) : PageTable :=
  (((t.put 12 (t.page 8)).put 13 (t.page 9)).put 14 (t.page 10)).put 15 (t.page 11)

/-- Points the four nametable windows at 1KB slices of the internal nametable RAM. -/
def mirror (t : PageTable) (a b c d : Nat) : PageTable :=
  let slice (n : Nat) : Page := ⟨.nametable, n % 4 * 0x400⟩
  ((((t.put 8 (slice a)).put 9 (slice b)).put 10 (slice c)).put 11 (slice d)).repeatNametables

/-- Points the eight pattern windows at pattern RAM in order. -/
def mapVram (t : PageTable) : PageTable := t.fill 0 .vram 0 0x400 8

/-- The number of the 8KB program bank at a CPU address. -/
def prgBank (t : PageTable) (address : UInt16) : UInt16 :=
  UInt16.ofNat ((t.page (address.toNat / 0x1000)).offset / 0x2000)

/-- The number of the 1KB pattern bank in a picture window. -/
def chrBank (t : PageTable) (window : Nat) : UInt16 := UInt16.ofNat ((t.page window).offset / 0x400)

/-! ### What a window shows after a change -/

variable (t : PageTable)

theorem page_put (w i : Nat) (p : Page) :
    (t.put w p).page i = if w = i % 16 then p else t.page i := by
  simp [put, page, Vector.getElem_setIfInBounds]

theorem page_fill (first : Nat) (region : Region) (base step count : Nat) {w : Nat} (hw : w < 16) :
    (t.fill first region base step count).page w =
      if first ≤ w ∧ w < first + count then ⟨region, base + (w - first) * step⟩ else t.page w := by
  induction count with
  | zero => rw [fill, if_neg (by omega)]
  | succ count ih =>
    rw [fill, page_put, ih, Nat.mod_eq_of_lt hw]
    by_cases h : first + count = w
    · rw [if_pos h, if_pos (by omega), show w - first = count by omega]
    · rw [if_neg h]
      congr 1
      apply propext
      omega

theorem page_mapPrg (prgSize kb : Nat) (address : UInt16) (bank : Int) {w : Nat} (hw : w < 16) :
    (t.mapPrg prgSize kb address bank).page w =
      if address.toNat / 0x1000 ≤ w ∧ w < address.toNat / 0x1000 + kb * 1024 / 0x1000 then
        ⟨.prg, wrapBank bank (prgSize / (kb * 1024)) * (kb * 1024) + (w - address.toNat / 0x1000) * 0x1000⟩
      else t.page w :=
  t.page_fill _ _ _ _ _ hw

theorem page_mapChr {chrSize : Nat} (h : chrSize ≠ 0) (kb : Nat) (address : UInt16) (bank : Int)
    {w : Nat} (hw : w < 16) :
    (t.mapChr chrSize kb address bank).page w =
      if address.toNat % 0x2000 / 0x400 ≤ w ∧ w < address.toNat % 0x2000 / 0x400 + kb * 1024 / 0x400 then
        ⟨.chr, wrapBank bank (chrSize / (kb * 1024)) * (kb * 1024) +
          (w - address.toNat % 0x2000 / 0x400) * 0x400⟩
      else t.page w := by
  rw [mapChr, if_neg h]
  exact t.page_fill _ _ _ _ _ hw

theorem mapChr_zero (kb : Nat) (address : UInt16) (bank : Int) : t.mapChr 0 kb address bank = t :=
  if_pos rfl

theorem page_repeatNametables {w : Nat} (hw : w < 16) :
    t.repeatNametables.page w = if 12 ≤ w then t.page (w - 4) else t.page w := by
  simp only [repeatNametables, page_put, Nat.mod_eq_of_lt hw]
  rcases (by omega : w < 12 ∨ w = 12 ∨ w = 13 ∨ w = 14 ∨ w = 15) with h | rfl | rfl | rfl | rfl
  · rw [if_neg (by omega), if_neg (by omega), if_neg (by omega), if_neg (by omega), if_neg (by omega)]
  all_goals rfl

/-- The four nametable windows and their copies show the chosen slices; the pattern windows stay. -/
theorem page_mirror (a b c d : Nat) {w : Nat} (hw : w < 16) :
    (t.mirror a b c d).page w =
      if w < 8 then t.page w else ⟨.nametable, [a, b, c, d].getD (w % 4) 0 % 4 * 0x400⟩ := by
  rw [mirror, page_repeatNametables _ hw]
  simp only [page_put]
  rcases (by omega : w < 8 ∨ w = 8 ∨ w = 9 ∨ w = 10 ∨ w = 11 ∨ w = 12 ∨ w = 13 ∨ w = 14 ∨ w = 15) with
    h | rfl | rfl | rfl | rfl | rfl | rfl | rfl | rfl
  · rw [if_neg (by omega), Nat.mod_eq_of_lt hw, if_neg (by omega), if_neg (by omega), if_neg (by omega),
      if_neg (by omega), if_pos h]
  all_goals rfl

theorem page_mapVram {w : Nat} (hw : w < 16) :
    t.mapVram.page w = if w < 8 then ⟨.vram, w * 0x400⟩ else t.page w := by
  rw [mapVram, page_fill _ _ _ _ _ _ hw]
  simp

end PageTable

end Famicom
