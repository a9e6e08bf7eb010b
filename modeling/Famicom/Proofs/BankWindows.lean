import Famicom.Board.Signal
import Famicom.Cpu
import Famicom.Ppu

/-!
What the windows of a bank show. A bank covers several windows with consecutive pages; a read adds its place in
the window to the page's offset, and starts over where the ROM ends:

    address    a         a + unit       a + 2 unit      …   a + size
    page       base      base + unit    base + 2 unit   …                  base = number * size
    read       rom[(base + j) % rom.size]   at a + j

So the windows of a bank read as one run of bytes, whatever the size of the ROM.
-/

namespace Famicom

/-- How many banks of a size a ROM has; one that is smaller than a bank is still one. -/
def bankCount (rom : Array UInt8) (size : Nat) : Nat := max 1 (rom.size / size)

/-- The bank that a number selects: its remainder by the number of banks, never negative. -/
def selectedBank (rom : Array UInt8) (size : Nat) (bank : Int) : Nat :=
  (bank % bankCount rom size).toNat

/-- A run of `size` bytes shows the bank of a ROM that a number selects. The `j`-th byte reads as `byte j`, and
`report k` is the number that the `k`-th stretch of `unit` bytes is known by, a word, exact as long as words can
count the ROM's stretches. -/
structure BankShown (rom : Array UInt8) (size unit : Nat) (bank : Int) (byte : Nat → UInt8)
    (report : Nat → UInt16) : Prop where
  bytes : ∀ j < size, rom[(selectedBank rom size bank * size + j) % rom.size]? = some (byte j)
  reports : ∀ k < size / unit,
    report k = UInt16.ofNat (selectedBank rom size bank * (size / unit) + k)
  exact : rom.size ≤ 0x10000 * unit → ∀ k < size / unit,
    (report k).toNat = selectedBank rom size bank * (size / unit) + k

/-! ### Numbers -/

theorem wrapBank_selected (rom : Array UInt8) (size : Nat) (bank : Int) :
    wrapBank bank (rom.size / size) = selectedBank rom size bank := by
  rw [wrapBank, selectedBank, bankCount, Nat.max_comm]

theorem bankCount_pos (rom : Array UInt8) (size : Nat) : 0 < bankCount rom size := Nat.le_max_left 1 _

/-- The last bank from the end is the last one. -/
theorem selectedBank_last (rom : Array UInt8) (size : Nat) :
    selectedBank rom size lastBank = bankCount rom size - 1 := by
  have hpos := bankCount_pos rom size
  have hmod : lastBank % (bankCount rom size : Int) = ((bankCount rom size - 1 : Nat) : Int) := by
    rw [← Int.add_emod_right, Int.emod_eq_of_lt] <;> unfold lastBank <;> omega
  rw [selectedBank, hmod, Int.toNat_natCast]

/-- The number of a stretch is below the number of stretches in the ROM, or in one bank. -/
theorem stretch_lt (rom : Array UInt8) {size unit : Nat} (bank : Int) (hunit : 0 < unit)
    (hsize : size / unit * unit = size) {k : Nat} (hk : k < size / unit) :
    (selectedBank rom size bank * (size / unit) + k) * unit < max rom.size size := by
  have hfit := wrapBank_mul_add_le bank rom.size size
  rw [wrapBank_selected] at hfit
  generalize selectedBank rom size bank = n at hfit ⊢
  have hstretch : k * unit + unit ≤ size := by
    rw [← hsize, ← Nat.succ_mul]
    exact Nat.mul_le_mul_right unit hk
  calc (n * (size / unit) + k) * unit
      = n * size + k * unit := by rw [Nat.add_mul, Nat.mul_assoc, hsize]
    _ < n * size + size := by omega
    _ ≤ max rom.size size := hfit

/-! ### Windows in a row -/

/-- Windows onto consecutive pages read as one run of bytes. -/
theorem PageTable.page_in_row {t : PageTable} {region : Region} {first count unit base a j : Nat}
    (hrow : ∀ i < count, t.page (first + i) = ⟨region, base + i * unit⟩) (ha : a = first * unit + j)
    (hj : j < count * unit) :
    (t.page (a / unit)).region = region ∧ (t.page (a / unit)).offset + a % unit = base + j := by
  have hunit : 0 < unit := Nat.pos_of_mul_pos_left (Nat.zero_lt_of_lt hj)
  have hwindow : a / unit = first + j / unit := by
    rw [ha, Nat.mul_comm, Nat.mul_add_div hunit]
  have hplace : a % unit = j % unit := by
    rw [ha, Nat.mul_comm, Nat.mul_add_mod]
  have hpage := hrow (j / unit) (Nat.div_lt_of_lt_mul (Nat.mul_comm count unit ▸ hj))
  have hsplit := Nat.div_add_mod' j unit
  rw [hwindow, hplace, hpage]
  refine ⟨rfl, ?_⟩
  simp only
  omega

theorem getElem?_romByte {rom : Array UInt8} (h : 0 < rom.size) (i : Nat) :
    rom[i % rom.size]? = some (Cartridge.romByte rom i) := by
  have hlt := Nat.mod_lt i h
  rw [Cartridge.romByte, Array.getElem?_eq_getElem hlt, Array.getD, dif_pos hlt]
  rfl

/-- Windows of `step` bytes onto the consecutive pages of a bank show it, if they are read through the ROM and
every `unit` bytes report the page that they begin with. -/
theorem bankShown_of_row {rom : Array UInt8} (hrom : 0 < rom.size) {t : PageTable} {region : Region}
    {first step unit per size : Nat} {bank : Int} {byte : Nat → UInt8} {report : Nat → UInt16}
    (hrow : ∀ i < size / step, t.page (first + i) = ⟨region, selectedBank rom size bank * size + i * step⟩)
    (hstep : size / step * step = size) (hunit : size / unit * unit = size) (hper : unit = per * step)
    (hpos : 0 < unit) (hsize : size ≤ 0x10000 * unit)
    (hbyte : ∀ j < size, (t.page ((first * step + j) / step)).region = region →
      byte j = Cartridge.romByte rom
        ((t.page ((first * step + j) / step)).offset + (first * step + j) % step))
    (hreport : ∀ k < size / unit, report k = UInt16.ofNat ((t.page (first + k * per)).offset / unit)) :
    BankShown rom size unit bank byte report := by
  have hreports : ∀ k < size / unit,
      report k = UInt16.ofNat (selectedBank rom size bank * (size / unit) + k) := by
    intro k hk
    have hplace : k * per * step = k * unit := by rw [hper, Nat.mul_assoc]
    have hpage : k * per < size / step := by
      have hstretch : k * unit < size / unit * unit := Nat.mul_lt_mul_of_pos_right hk hpos
      rw [hunit, ← hstep, ← hplace] at hstretch
      exact Nat.lt_of_mul_lt_mul_right hstretch
    have hnumber : selectedBank rom size bank * size + k * unit =
        (selectedBank rom size bank * (size / unit) + k) * unit := by
      rw [Nat.add_mul, Nat.mul_assoc, hunit]
    rw [hreport k hk, hrow _ hpage, hplace, hnumber, Nat.mul_div_cancel _ hpos]
  refine ⟨fun j hj => ?_, hreports, fun hcount k hk => ?_⟩
  · obtain ⟨hregion, hindex⟩ := PageTable.page_in_row hrow rfl (hstep.symm ▸ hj)
    rw [getElem?_romByte hrom, hbyte j hj hregion, hindex]
  · have hstretch := stretch_lt rom bank hpos hunit hk
    have hwords : (selectedBank rom size bank * (size / unit) + k) * unit < 0x10000 * unit :=
      Nat.lt_of_lt_of_le hstretch (Nat.max_le.mpr ⟨hcount, hsize⟩)
    rw [hreports k hk, UInt16.toNat_ofNat', Nat.mod_eq_of_lt (Nat.lt_of_mul_lt_mul_right hwords)]

/-- An address in a run that ends within the address space. -/
theorem toNat_add_place {address : UInt16} {j : Nat} (h : address.toNat + j < 0x10000) :
    (address + UInt16.ofNat j).toNat = address.toNat + j := by
  rw [UInt16.toNat_add, UInt16.toNat_ofNat']
  omega

/-! ### Program banks and pattern banks -/

section
variable {cart : Cartridge} {kb : Nat} {address : UInt16}

/-- A program bank shows in its windows. -/
theorem program_shown (c : Cpu) (hprg : 0 < cart.prg.size) (hkb : kb ∈ [8, 16, 32])
    (haligned : address.toNat % (kb * 1024) = 0) (bank : Int) :
    let t := c.pages.mapPrg cart.prg.size kb address bank
    BankShown cart.prg (kb * 1024) 0x2000 bank
      (fun j => ({ c with pages := t } : Cpu).peek cart (address + UInt16.ofNat j))
      (fun k => t.prgBank (address + UInt16.ofNat (k * 0x2000))) := by
  intro t
  have hlimit := address.toNat_lt
  simp only [List.mem_cons, List.not_mem_nil, or_false] at hkb
  have hfits : address.toNat + kb * 1024 ≤ 0x10000 := by
    rcases hkb with rfl | rfl | rfl <;> omega
  have hstart : address.toNat / 0x1000 * 0x1000 = address.toNat := by
    rcases hkb with rfl | rfl | rfl <;> omega
  have hrow : ∀ i < kb * 1024 / 0x1000, t.page (address.toNat / 0x1000 + i) =
      ⟨.prg, selectedBank cart.prg (kb * 1024) bank * (kb * 1024) + i * 0x1000⟩ := by
    intro i hi
    rw [PageTable.page_mapPrg c.pages _ _ _ _ (by omega), if_pos (by omega), wrapBank_selected,
      Nat.add_sub_cancel_left]
  have hsteps : kb * 1024 / 0x1000 * 0x1000 = kb * 1024 := by rcases hkb with rfl | rfl | rfl <;> rfl
  have hunits : kb * 1024 / 0x2000 * 0x2000 = kb * 1024 := by rcases hkb with rfl | rfl | rfl <;> rfl
  have hsmall : kb * 1024 ≤ 0x10000 * 0x2000 := by omega
  have hper : 0x2000 = 2 * 0x1000 := rfl
  refine bankShown_of_row hprg hrow hsteps hunits hper (Nat.succ_pos _) hsmall
    (fun j hj hregion => ?_) (fun k hk => ?_)
  · rw [hstart] at hregion ⊢
    simp only [Cpu.peek, toNat_add_place (show address.toNat + j < 0x10000 by omega)]
    rw [hregion]
    rfl
  · have hwindow : (address.toNat + k * 0x2000) / 0x1000 = address.toNat / 0x1000 + k * 2 := by omega
    rw [PageTable.prgBank, toNat_add_place (by omega), hwindow]

/-- No other window moves. -/
theorem program_apart (t : PageTable) (hkb : kb ∈ [8, 16, 32]) (bank : Int) {w : Nat} (hw : w < 16)
    (hapart : w < address.toNat / 0x1000 ∨ address.toNat / 0x1000 + kb / 4 ≤ w) :
    (t.mapPrg cart.prg.size kb address bank).page w = t.page w := by
  simp only [List.mem_cons, List.not_mem_nil, or_false] at hkb
  rw [PageTable.page_mapPrg t _ _ _ _ hw, if_neg (by omega)]

/-- A pattern bank shows in its windows. -/
theorem pattern_shown (p : Ppu) (hchr : cart.chr.size ≠ 0) (hkb : kb ∈ [1, 2, 4, 8])
    (hlow : address.toNat < 0x2000) (haligned : address.toNat % (kb * 1024) = 0) (bank : Int) :
    let t := p.pages.mapChr cart.chr.size kb address bank
    BankShown cart.chr (kb * 1024) 0x400 bank
      (fun j => ({ p with pages := t } : Ppu).read cart (address + UInt16.ofNat j))
      (fun k => t.chrBank (address.toNat / 0x400 + k)) := by
  intro t
  simp only [List.mem_cons, List.not_mem_nil, or_false] at hkb
  have hfits : address.toNat + kb * 1024 ≤ 0x2000 := by
    rcases hkb with rfl | rfl | rfl | rfl <;> omega
  have hstart : address.toNat / 0x400 * 0x400 = address.toNat := by
    rcases hkb with rfl | rfl | rfl | rfl <;> omega
  have hrow : ∀ i < kb * 1024 / 0x400, t.page (address.toNat / 0x400 + i) =
      ⟨.chr, selectedBank cart.chr (kb * 1024) bank * (kb * 1024) + i * 0x400⟩ := by
    intro i hi
    rw [PageTable.page_mapChr p.pages hchr _ _ _ (by omega), if_pos (by omega), wrapBank_selected,
      Nat.mod_eq_of_lt hlow, Nat.add_sub_cancel_left]
  have hsteps : kb * 1024 / 0x400 * 0x400 = kb * 1024 := by rcases hkb with rfl | rfl | rfl | rfl <;> rfl
  have hsmall : kb * 1024 ≤ 0x10000 * 0x400 := by omega
  have hper : 0x400 = 1 * 0x400 := rfl
  refine bankShown_of_row (Nat.pos_of_ne_zero hchr) hrow hsteps hsteps hper (Nat.succ_pos _) hsmall
    (fun j hj hregion => ?_) (fun k _ => ?_)
  · rw [hstart] at hregion ⊢
    simp only [Ppu.read, toNat_add_place (show address.toNat + j < 0x10000 by omega)]
    rw [hregion]
    rfl
  · rw [PageTable.chrBank, Nat.mul_one]

/-- No other window moves. -/
theorem pattern_apart (t : PageTable) (hlow : address.toNat < 0x2000) (bank : Int) {w : Nat}
    (hw : w < 16) (hapart : w < address.toNat / 0x400 ∨ address.toNat / 0x400 + kb ≤ w) :
    (t.mapChr cart.chr.size kb address bank).page w = t.page w := by
  by_cases hchr : cart.chr.size = 0
  · rw [hchr, PageTable.mapChr_zero]
  · rw [PageTable.page_mapChr t hchr _ _ _ hw, if_neg (by omega)]

end

/-! ### Both -/

/-- A bank of program or pattern ROM, switched in at an address that is a multiple of its size, shows byte by
byte in the windows that it covers and in no other; the windows report its number. The number wraps around the
banks of the ROM, the last bank being -1. Without pattern ROM, no pattern window moves. -/
theorem banks_shown (cart : Cartridge) (c : Cpu) (p : Ppu) (bank : Int) (address : UInt16) :
    (0 < cart.prg.size → ∀ kb ∈ [8, 16, 32], address.toNat % (kb * 1024) = 0 →
      let t := c.pages.mapPrg cart.prg.size kb address bank
      BankShown cart.prg (kb * 1024) 0x2000 bank
        (fun j => ({ c with pages := t } : Cpu).peek cart (address + UInt16.ofNat j))
        (fun k => t.prgBank (address + UInt16.ofNat (k * 0x2000))) ∧
      ∀ w < 16, w < address.toNat / 0x1000 ∨ address.toNat / 0x1000 + kb / 4 ≤ w →
        t.page w = c.pages.page w) ∧
    (address.toNat < 0x2000 → ∀ kb ∈ [1, 2, 4, 8], address.toNat % (kb * 1024) = 0 →
      let t := p.pages.mapChr cart.chr.size kb address bank
      if cart.hasChr then
        BankShown cart.chr (kb * 1024) 0x400 bank
          (fun j => ({ p with pages := t } : Ppu).read cart (address + UInt16.ofNat j))
          (fun k => t.chrBank (address.toNat / 0x400 + k)) ∧
        ∀ w < 16, w < address.toNat / 0x400 ∨ address.toNat / 0x400 + kb ≤ w →
          t.page w = p.pages.page w
      else t = p.pages) ∧
    ∀ (rom : Array UInt8) (size : Nat), selectedBank rom size lastBank = bankCount rom size - 1 := by
  refine ⟨fun hprg kb hkb haligned => ⟨program_shown c hprg hkb haligned bank, ?_⟩, ?_,
    selectedBank_last⟩
  · intro w hw hapart
    exact program_apart c.pages hkb bank hw hapart
  · intro hlow kb hkb haligned t
    by_cases hchr : cart.chr.size = 0
    · have hnone : ¬ cart.hasChr = true := by simp [Cartridge.hasChr, hchr]
      rw [if_neg hnone]
      simp only [t, hchr, PageTable.mapChr_zero]
    · have hsome : cart.hasChr = true := by simp [Cartridge.hasChr, hchr]
      rw [if_pos hsome]
      exact ⟨pattern_shown p hchr hkb hlow haligned bank,
        fun w hw hapart => pattern_apart p.pages hlow bank hw hapart⟩

/-- Three program banks of 16KB, each filled with its number. -/
def threeBanks : Cartridge where
  prg := Array.ofFn fun i : Fin (3 * Cartridge.prgBankSize) => UInt8.ofNat (i.val / Cartridge.prgBankSize)

theorem threeBanks_byte {i : Nat} (h : i < 3 * Cartridge.prgBankSize) :
    threeBanks.prg[i]? = some (UInt8.ofNat (i / Cartridge.prgBankSize)) := by
  simp [threeBanks, h]

theorem banks_shown_from_the_end :
    let t := PageTable.blank.mapPrg threeBanks.prg.size 16 0xC000 (-5)
    0 < threeBanks.prg.size ∧ selectedBank threeBanks.prg 0x4000 (-5) = 1 ∧
    ({ pages := t } : Cpu).peek threeBanks 0xFFFF = 1 ∧ t.prgBank 0xE000 = 3 ∧
    ∀ w < 12, t.page w = Page.dead := by
  intro t
  have hsize : threeBanks.prg.size = 3 * Cartridge.prgBankSize := by
    simp only [threeBanks, Array.size_ofFn]
  have hprg : 0 < threeBanks.prg.size := by
    rw [hsize]
    decide
  have hbank : selectedBank threeBanks.prg 0x4000 (-5) = 1 := by
    rw [selectedBank, bankCount, hsize]
    decide
  obtain ⟨hprogram, -, -⟩ := banks_shown threeBanks { pages := PageTable.blank } {} (-5) 0xC000
  have hkb : 16 ∈ [8, 16, 32] := by simp
  have haligned : (0xC000 : UInt16).toNat % (16 * 1024) = 0 := by decide
  obtain ⟨hshown, hapart⟩ := hprogram hprg 16 hkb haligned
  have hread : (0xC000 : UInt16) + UInt16.ofNat 0x3FFF = 0xFFFF := by decide
  have hstep : (0xC000 : UInt16) + UInt16.ofNat (1 * 0x2000) = 0xE000 := by decide
  have hplace : 0x3FFF < 16 * 1024 := by omega
  have hbyte := hshown.bytes 0x3FFF hplace
  have hreport := hshown.reports 1 (by decide)
  rw [show 16 * 1024 = 0x4000 from rfl, hbank] at hbyte hreport
  refine ⟨hprg, hbank, ?_, ?_, fun w hw => ?_⟩
  · have hlast : threeBanks.prg[(1 * 0x4000 + 0x3FFF) % threeBanks.prg.size]? = some 1 := by
      rw [threeBanks_byte (hsize ▸ Nat.mod_lt _ hprg), hsize]
      decide
    rw [hread, hlast] at hbyte
    exact (Option.some.inj hbyte).symm
  · rw [hstep] at hreport
    exact hreport
  · rw [show t.page w = PageTable.blank.page w from hapart w (by omega) (.inl hw)]
    simp [PageTable.blank, PageTable.page]

end Famicom
