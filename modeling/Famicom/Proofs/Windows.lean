import Famicom.Machine

/-!
What the windows of a powered console show, whatever a board has asked for.

    CPU   0 RAM   1-5 dead   6-7 battery RAM or a bank   8-9, 10-11, 12-13, 14-15 a bank each
    PPU   0-7 patterns       8-11 nametables             12-15 the same four again

Program ROM moves in 8KB banks: two windows that start at an even one always show the two halves of one
bank (`ShowsBank`). A bank may lie past the end of a ROM smaller than 32KB, where reading starts over.
Both layouts (`ProgramWindows`, `PictureWindows`) survive every change of windows that a board can ask
for.
-/

namespace Famicom

theorem PageTable.ext_page {t t' : PageTable} (h : ∀ w < 16, t.page w = t'.page w) : t = t' := by
  apply Vector.ext
  intro i hi
  have hpage := h i hi
  simpa only [PageTable.page, Nat.mod_eq_of_lt hi] using hpage

/-! ### Program windows -/

/-- Windows `w` and `w + 1` show the halves of one 8KB bank, which lies in the ROM or below 32KB. -/
def ShowsBank (prgSize : Nat) (t : PageTable) (w : Nat) : Prop :=
  ∃ b, t.page w = ⟨.prg, b * 0x2000⟩ ∧ t.page (w + 1) = ⟨.prg, b * 0x2000 + 0x1000⟩ ∧
    b * 0x2000 + 0x2000 ≤ max prgSize 0x8000

/-- The windows below the program ROM. -/
structure LowWindows (prgSize : Nat) (t : PageTable) : Prop where
  ram : t.page 0 = ⟨.ram, 0⟩
  dead : ∀ w, 0 < w → w < 6 → t.page w = Page.dead
  battery : (t.page 6 = ⟨.sram, 0⟩ ∧ t.page 7 = ⟨.sram, 0x1000⟩) ∨ ShowsBank prgSize t 6

/-- All windows of the processor: the low ones, and four banks of program ROM. -/
structure ProgramWindows (prgSize : Nat) (t : PageTable) : Prop extends LowWindows prgSize t where
  rom : ∀ k < 4, ShowsBank prgSize t (8 + 2 * k)

/-- Every program window is one half of a bank. -/
theorem exists_half {w : Nat} (hlo : 8 ≤ w) (hhi : w < 16) :
    ∃ k i, k < 4 ∧ i < 2 ∧ w = 8 + 2 * k + i :=
  ⟨(w - 8) / 2, (w - 8) % 2, by omega, by omega, by omega⟩

theorem ProgramWindows.half {size : Nat} {t : PageTable} (h : ProgramWindows size t) {k i : Nat}
    (hk : k < 4) (hi : i < 2) : ∃ b, t.page (8 + 2 * k) = ⟨.prg, b * 0x2000⟩ ∧
      t.page (8 + 2 * k + i) = ⟨.prg, b * 0x2000 + i * 0x1000⟩ ∧
        b * 0x2000 + 0x2000 ≤ max size 0x8000 := by
  obtain ⟨b, h0, h1, hb⟩ := h.rom k hk
  refine ⟨b, h0, ?_, hb⟩
  rcases (by omega : i = 0 ∨ i = 1) with rfl | rfl
  · rw [Nat.add_zero, h0, Nat.zero_mul, Nat.add_zero]
  · rw [h1, Nat.one_mul]

/-- Whole 8KB banks at an address where windows can show them. -/
def FitsProgram (kb : Nat) (address : UInt16) : Prop :=
  kb % 8 = 0 ∧ kb ≤ 32 ∧ 0x6000 ≤ address.toNat ∧ address.toNat % 0x2000 = 0 ∧
    address.toNat + kb * 0x400 ≤ 0x10000

instance (kb : Nat) (address : UInt16) : Decidable (FitsProgram kb address) := by
  unfold FitsProgram
  infer_instance

section
variable {prgSize kb : Nat} {address : UInt16} {t : PageTable} {w : Nat}

/-- Two windows that a bank covers show the halves of an 8KB bank. -/
theorem shows_of_covered (hf : FitsProgram kb address) (bank : Int) (hw : w % 2 = 0)
    (hlo : address.toNat / 0x1000 ≤ w) (hhi : w < address.toNat / 0x1000 + kb / 4) :
    ShowsBank prgSize (t.mapPrg prgSize kb address bank) w := by
  obtain ⟨hkb, hkb', -, ha, hend⟩ := hf
  obtain ⟨q, rfl⟩ : ∃ q, kb = 8 * q := ⟨kb / 8, by omega⟩
  obtain ⟨j, hj⟩ : ∃ j, w = address.toNat / 0x1000 + 2 * j :=
    ⟨(w - address.toNat / 0x1000) / 2, by omega⟩
  have hfit := wrapBank_mul_add_le bank prgSize (8 * q * 1024)
  generalize hn : wrapBank bank (prgSize / (8 * q * 1024)) = n at hfit
  have hmul : n * (8 * q * 1024) = n * q * 0x2000 := by
    rw [show 8 * q * 1024 = q * 0x2000 by omega, Nat.mul_assoc]
  refine ⟨n * q + j, ?_, ?_, by omega⟩
  · rw [PageTable.page_mapPrg t _ _ _ _ (by omega), if_pos (by omega), hn, hmul, Page.mk.injEq]
    exact ⟨rfl, by omega⟩
  · rw [PageTable.page_mapPrg t _ _ _ _ (by omega), if_pos (by omega), hn, hmul, Page.mk.injEq]
    exact ⟨rfl, by omega⟩

/-- Windows that a bank does not cover stay as they are. -/
theorem shows_of_uncovered (hf : FitsProgram kb address) (bank : Int) (hw : w % 2 = 0) (hw16 : w < 16)
    (hout : ¬ (address.toNat / 0x1000 ≤ w ∧ w < address.toNat / 0x1000 + kb / 4))
    (h : ShowsBank prgSize t w) : ShowsBank prgSize (t.mapPrg prgSize kb address bank) w := by
  obtain ⟨hkb, -, -, ha, -⟩ := hf
  obtain ⟨b, h0, h1, hb⟩ := h
  refine ⟨b, ?_, ?_, hb⟩
  · rw [PageTable.page_mapPrg t _ _ _ _ hw16, if_neg (by omega), h0]
  · rw [PageTable.page_mapPrg t _ _ _ _ (by omega), if_neg (by omega), h1]

theorem ShowsBank.mapPrg (hf : FitsProgram kb address) (bank : Int) (hw : w % 2 = 0) (hw16 : w < 16)
    (h : ShowsBank prgSize t w) : ShowsBank prgSize (t.mapPrg prgSize kb address bank) w := by
  by_cases hc : address.toNat / 0x1000 ≤ w ∧ w < address.toNat / 0x1000 + kb / 4
  · exact shows_of_covered hf bank hw hc.1 hc.2
  · exact shows_of_uncovered hf bank hw hw16 hc h

theorem LowWindows.mapPrg (hf : FitsProgram kb address) (bank : Int) (h : LowWindows prgSize t) :
    LowWindows prgSize (t.mapPrg prgSize kb address bank) := by
  have hf' := hf
  obtain ⟨hkb, -, hlo, ha, -⟩ := hf'
  have below : ∀ w < 6, (t.mapPrg prgSize kb address bank).page w = t.page w := by
    intro w hw
    rw [PageTable.page_mapPrg t _ _ _ _ (by omega), if_neg (by omega)]
  refine ⟨by rw [below 0 (by omega), h.ram], fun w h0 h6 => by rw [below w h6, h.dead w h0 h6], ?_⟩
  by_cases hc : address.toNat / 0x1000 ≤ 6 ∧ 6 < address.toNat / 0x1000 + kb / 4
  · exact Or.inr (shows_of_covered hf bank rfl hc.1 hc.2)
  · rcases h.battery with ⟨h6, h7⟩ | hbank
    · left
      constructor
      · rw [PageTable.page_mapPrg t _ _ _ _ (by omega), if_neg (by omega), h6]
      · rw [PageTable.page_mapPrg t _ _ _ _ (by omega), if_neg (by omega), h7]
    · exact Or.inr (shows_of_uncovered hf bank rfl (by omega) hc hbank)

/-- Showing program banks keeps the layout. -/
theorem ProgramWindows.mapPrg (hf : FitsProgram kb address) (bank : Int)
    (h : ProgramWindows prgSize t) :
    ProgramWindows prgSize (t.mapPrg prgSize kb address bank) where
  toLowWindows := h.toLowWindows.mapPrg hf bank
  rom := fun k hk => (h.rom k hk).mapPrg hf bank (by omega) (by omega)

end

/-! ### Picture windows -/

/-- What pattern window `w` shows: a 1KB page of pattern ROM, or its own page of pattern RAM without
ROM. -/
def ShowsPattern (chrSize w : Nat) (p : Page) : Prop :=
  if chrSize = 0 then p = ⟨.vram, w * 0x400⟩ else ∃ n, p = ⟨.chr, n * 0x400⟩ ∧ n * 0x400 < chrSize

/-- What a nametable window shows: internal RAM or, on board 19 only, pattern memory. -/
def ShowsTable (mapper : UInt8) (chrSize : Nat) (p : Page) : Prop :=
  (∃ n < 4, p = ⟨.nametable, n * 0x400⟩) ∨
    mapper = 19 ∧ ((∃ n, p = ⟨.chr, n * 0x400⟩ ∧ n * 0x400 < chrSize) ∨
      chrSize = 0 ∧ ∃ n < 8, p = ⟨.vram, n * 0x400⟩)

/-- The nametable windows and their copies. -/
structure TableWindows (mapper : UInt8) (chrSize : Nat) (t : PageTable) : Prop where
  tables : ∀ w < 4, ShowsTable mapper chrSize (t.page (8 + w))
  copies : ∀ w < 4, t.page (12 + w) = t.page (8 + w)

/-- All windows of the picture unit. -/
structure PictureWindows (mapper : UInt8) (chrSize : Nat) (t : PageTable) : Prop
    extends TableWindows mapper chrSize t where
  pattern : ∀ w < 8, ShowsPattern chrSize w (t.page w)

/-- Pattern banks at an address where the pattern windows can show them. -/
def FitsPattern (kb : Nat) (address : UInt16) : Prop := address.toNat % 0x2000 / 0x400 + kb ≤ 8

instance (kb : Nat) (address : UInt16) : Decidable (FitsPattern kb address) := by
  unfold FitsPattern
  infer_instance

section
variable {mapper : UInt8} {chrSize kb : Nat} {address : UInt16} {t : PageTable} {w : Nat}

/-- A window that a pattern bank covers shows a page of the ROM. -/
theorem pattern_of_covered (hchr : chrSize ≠ 0) (h8 : chrSize % 0x2000 = 0)
    (hf : FitsPattern kb address) (bank : Int) (hw : w < 8)
    (hlo : address.toNat % 0x2000 / 0x400 ≤ w)
    (hhi : w < address.toNat % 0x2000 / 0x400 + kb) :
    ShowsPattern chrSize w ((t.mapChr chrSize kb address bank).page w) := by
  have hkb : address.toNat % 0x2000 / 0x400 + kb ≤ 8 := hf
  have hfit := wrapBank_mul_add_le bank chrSize (kb * 1024)
  generalize hn : wrapBank bank (chrSize / (kb * 1024)) = n at hfit
  have hmul : n * (kb * 1024) = n * kb * 0x400 := by rw [Nat.mul_assoc]
  rw [ShowsPattern, if_neg hchr, PageTable.page_mapChr t hchr _ _ _ (by omega), if_pos (by omega),
    hn, hmul]
  refine ⟨n * kb + (w - address.toNat % 0x2000 / 0x400), ?_, by omega⟩
  rw [Page.mk.injEq]
  exact ⟨rfl, by omega⟩

/-- Showing pattern banks moves none but the pattern windows. -/
theorem page_mapChr_high (hf : FitsPattern kb address) (bank : Int) (hw : 8 ≤ w) (hw16 : w < 16) :
    (t.mapChr chrSize kb address bank).page w = t.page w := by
  have hkb : address.toNat % 0x2000 / 0x400 + kb ≤ 8 := hf
  by_cases hchr : chrSize = 0
  · rw [hchr, PageTable.mapChr_zero]
  · rw [PageTable.page_mapChr t hchr _ _ _ hw16, if_neg (by omega)]

/-- Showing pattern banks keeps the layout. -/
theorem PictureWindows.mapChr (h8 : chrSize % 0x2000 = 0) (hf : FitsPattern kb address) (bank : Int)
    (h : PictureWindows mapper chrSize t) :
    PictureWindows mapper chrSize (t.mapChr chrSize kb address bank) := by
  refine ⟨⟨fun w hw => ?_, fun w hw => ?_⟩, fun w hw => ?_⟩
  · rw [page_mapChr_high hf bank (by omega) (by omega)]
    exact h.tables w hw
  · rw [page_mapChr_high hf bank (by omega) (by omega), page_mapChr_high hf bank (by omega) (by omega)]
    exact h.copies w hw
  · by_cases hchr : chrSize = 0
    · rw [hchr, PageTable.mapChr_zero, ← hchr]
      exact h.pattern w hw
    · by_cases hc : address.toNat % 0x2000 / 0x400 ≤ w ∧ w < address.toNat % 0x2000 / 0x400 + kb
      · exact pattern_of_covered hchr h8 hf bank hw hc.1 hc.2
      · rw [PageTable.page_mapChr t hchr _ _ _ (by omega), if_neg (by omega)]
        exact h.pattern w hw

/-- Nametable windows on internal RAM, whatever they showed. -/
theorem tables_mirror (a b c d : Nat) : TableWindows mapper chrSize (t.mirror a b c d) := by
  refine ⟨fun w hw => Or.inl ?_, fun w hw => ?_⟩
  · exact ⟨[a, b, c, d].getD ((8 + w) % 4) 0 % 4, by omega,
      by rw [PageTable.page_mirror t _ _ _ _ (by omega), if_neg (by omega)]⟩
  · rw [PageTable.page_mirror t _ _ _ _ (by omega), PageTable.page_mirror t _ _ _ _ (by omega),
      if_neg (by omega), if_neg (by omega), show (12 + w) % 4 = (8 + w) % 4 by omega]

/-- Pointing the nametable windows at internal RAM keeps the pattern windows. -/
theorem windows_mirror (h : ∀ w < 8, ShowsPattern chrSize w (t.page w)) (a b c d : Nat) :
    PictureWindows mapper chrSize (t.mirror a b c d) where
  toTableWindows := tables_mirror a b c d
  pattern := fun w hw => by
    rw [PageTable.page_mirror t _ _ _ _ (by omega), if_pos hw]
    exact h w hw

/-- Pointing one nametable window at a page keeps the layout, if the page may stand there. -/
theorem PictureWindows.put_table (h : PictureWindows mapper chrSize t) {p : Page}
    (hp : ShowsTable mapper chrSize p) (n : Nat) :
    PictureWindows mapper chrSize ((t.put (8 + n % 4) p).repeatNametables) := by
  refine ⟨⟨fun w hw => ?_, fun w hw => ?_⟩, fun w hw => ?_⟩
  · rw [PageTable.page_repeatNametables _ (by omega), if_neg (by omega), PageTable.page_put]
    split
    · exact hp
    · exact h.tables w hw
  · rw [PageTable.page_repeatNametables _ (by omega), PageTable.page_repeatNametables _ (by omega),
      if_pos (by omega), if_neg (by omega), show 12 + w - 4 = 8 + w by omega]
  · rw [PageTable.page_repeatNametables _ (by omega), if_neg (by omega), PageTable.page_put,
      if_neg (by omega)]
    exact h.pattern w hw

/-- Pattern windows in RAM, in order, whatever they showed. -/
theorem TableWindows.mapVram (h : TableWindows mapper 0 t) : PictureWindows mapper 0 t.mapVram := by
  refine ⟨⟨fun w hw => ?_, fun w hw => ?_⟩, fun w hw => ?_⟩
  · rw [PageTable.page_mapVram t (by omega), if_neg (by omega)]
    exact h.tables w hw
  · rw [PageTable.page_mapVram t (by omega), PageTable.page_mapVram t (by omega), if_neg (by omega),
      if_neg (by omega)]
    exact h.copies w hw
  · rw [ShowsPattern, if_pos rfl, PageTable.page_mapVram t (by omega), if_pos hw]

/-- Repeating the nametables once more changes nothing that the layout asks for. -/
theorem PictureWindows.repeatNametables (h : PictureWindows mapper chrSize t) :
    PictureWindows mapper chrSize t.repeatNametables := by
  refine ⟨⟨fun w hw => ?_, fun w hw => ?_⟩, fun w hw => ?_⟩
  · rw [PageTable.page_repeatNametables _ (by omega), if_neg (by omega)]
    exact h.tables w hw
  · rw [PageTable.page_repeatNametables _ (by omega), PageTable.page_repeatNametables _ (by omega),
      if_pos (by omega), if_neg (by omega), show 12 + w - 4 = 8 + w by omega]
  · rw [PageTable.page_repeatNametables _ (by omega), if_neg (by omega)]
    exact h.pattern w hw

end

end Famicom
