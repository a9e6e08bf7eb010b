import Famicom.Proofs.BaseBlock

/-!
The block of the windows: bank numbers for what the program and pattern windows show. Program windows
come back up to the size of the ROM, since a bank past its end is remembered by a number that wraps;
both show the same bytes (`SameProgram`). Pattern windows come back exactly (`SamePatterns`).

    window ─▶ offset b · 2000 ─▶ number b ─▶ b mod banks ─▶ offset (b mod banks) · 2000

Board 0 has no such block and needs none: its windows never move.
-/

namespace Famicom.Snapshot

/-! ### The block of the windows -/

/-- The program banks of a machine's body. -/
theorem wordAt_program (m : Machine) {k : Nat} (hk : k < 4) :
    wordAt (windowsBody m) (k * 2) = m.cpu.pages.prgBank (programAddress k) := by
  interval_cases k <;> exact wordAt_of_drop rfl

/-- The pattern banks of a machine's body. -/
theorem wordAt_patterns (m : Machine) {k : Nat} (hk : k < 8) :
    wordAt (windowsBody m) (8 + k * 2) = patternBank m k := by
  interval_cases k <;> exact wordAt_of_drop rfl

theorem page_restoreProgram (t : PageTable) (prgSize : Nat) (body : List UInt8) {k i : Nat} (hk : k < 4)
    (hi : i < 2) : (restoreProgram t prgSize body).page (8 + 2 * k + i) =
      ⟨.prg, wrapBank (wordAt body (k * 2)).toNat (prgSize / 0x2000) * 0x2000 + i * 0x1000⟩ := by
  interval_cases k <;> interval_cases i <;>
    simp [restoreProgram, List.range, List.range.loop, PageTable.page_mapPrg, programAddress]

theorem page_restoreProgram_low (t : PageTable) (prgSize : Nat) (body : List UInt8) {w : Nat} (hw : w < 8) :
    (restoreProgram t prgSize body).page w = t.page w := by
  refine List.foldlRecOn (motive := fun u : PageTable => u.page w = t.page w) _ _ rfl fun u hu n hn => ?_
  have haddress : 0x8000 ≤ (programAddress n).toNat := by
    have hn4 : n < 4 := List.mem_range.mp hn
    interval_cases n <;> decide
  rw [PageTable.page_mapPrg _ _ _ _ _ (by omega), if_neg (by omega), hu]

theorem page_restorePatterns (t : PageTable) (cart : Cartridge) (body : List UInt8) {w : Nat}
    (hw : w < 8) :
    (restorePatterns t cart body).page w =
      if cart.hasChr then
        ⟨.chr, wrapBank (wordAt body (8 + w * 2)).toNat (cart.chr.size / 0x400) * 0x400⟩
      else ⟨.vram, w * 0x400⟩ := by
  simp only [restorePatterns]
  rw [PageTable.page_repeatNametables _ (by omega), if_neg (by omega)]
  split
  case isTrue hchr =>
    have h0 : cart.chr.size ≠ 0 := by simpa [Cartridge.hasChr] using hchr
    interval_cases w <;> simp [List.range, List.range.loop, PageTable.page_mapChr _ h0]
  case isFalse => rw [PageTable.page_mapVram _ (by omega), if_pos hw]

/-- Restoring patterns leaves the nametable windows where they are. -/
theorem page_restorePatterns_table (t : PageTable) (cart : Cartridge) (body : List UInt8) {w : Nat}
    (hlo : 8 ≤ w) (hhi : w < 12) : (restorePatterns t cart body).page w = t.page w := by
  simp only [restorePatterns]
  rw [PageTable.page_repeatNametables _ (by omega), if_neg (by omega)]
  split
  · exact List.foldlRecOn (motive := fun u : PageTable => u.page w = t.page w) _ _ rfl
      fun u hu n _ => (page_mapChr_high (fitsPattern_one _) _ hlo (by omega)).trans hu
  · rw [PageTable.page_mapVram _ (by omega), if_neg (by omega)]

/-- The board's bytes, where a board looks for them. -/
theorem drop_windowsBody (m : Machine) :
    ((windowsBody m).drop boardOffset).take boardSize = boardBytes m.board := by
  have hprogram :
      ((List.range 4).flatMap fun n => wordBytes (m.cpu.pages.prgBank (programAddress n))).length = 8 := rfl
  have hpatterns : ((List.range 8).flatMap fun n => wordBytes (patternBank m n)).length = 16 := rfl
  have hlength : (boardBytes m.board).length ≤ boardSize := List.length_take_le _ _
  rw [windowsBody, List.drop_left' (by rw [List.length_append, hprogram, hpatterns]; rfl),
    List.take_of_length_le hlength]

/-- What a board finds at an index when it takes over the snapshot of a machine. -/
def keptByte (m : Machine) (i : Nat) : UInt8 :=
  (((windowsBody m).drop boardOffset).take boardSize).toArray.getD i 0

/-- It finds what the machine's board keeps. -/
theorem keptByte_eq {m : Machine} {b : Board} (h : m.board = some b) {i : Nat} (hi : i < b.save.length)
    (hsize : i < boardSize) : keptByte m i = b.save.getD i 0 := by
  rw [keptByte, drop_windowsBody, h, boardBytes, Array.getD_eq_getD_getElem?, List.getElem?_toArray,
    List.getElem?_take_of_lt hsize, List.getElem?_append_left hi, List.getD_eq_getElem?_getD]

/-! ### The same view -/

/-- The program windows show the same bytes of a ROM, which starts over past its end. -/
def SameProgram (size : Nat) (t u : PageTable) : Prop :=
  ∀ w, 8 ≤ w → w < 16 → ∃ x y, t.page w = ⟨.prg, x⟩ ∧ u.page w = ⟨.prg, y⟩ ∧ y % size = x % size

/-- The pattern windows show the same pages. -/
def SamePatterns (t u : PageTable) : Prop := ∀ w < 8, u.page w = t.page w

theorem romByte_congr {rom : Array UInt8} {x y : Nat} (h : y % rom.size = x % rom.size) (i : Nat) :
    Cartridge.romByte rom (y + i) = Cartridge.romByte rom (x + i) := by
  unfold Cartridge.romByte
  rw [← Nat.mod_add_mod, h, Nat.mod_add_mod]

theorem read_rom (m : Machine) {address : UInt16} (ha : 0x8000 ≤ address) :
    (m.read address).1 = m.cpu.peek m.cart address := by
  have hlow : ¬ address < 0x2000 := UInt16.not_lt.mpr (UInt16.le_trans (by decide) ha)
  rw [Machine.read, if_neg hlow, if_pos ha]

theorem SameProgram.read {m n : Machine} (h : SameProgram m.cart.prg.size m.cpu.pages n.cpu.pages)
    (hprg : n.cart.prg = m.cart.prg) {address : UInt16} (ha : 0x8000 ≤ address) :
    (n.read address).1 = (m.read address).1 := by
  have hwindow : 8 ≤ address.toNat / 0x1000 ∧ address.toNat / 0x1000 < 16 := by
    have h8 : 0x8000 ≤ address.toNat := UInt16.le_iff_toNat_le.mp ha
    have h16 := address.toNat_lt
    omega
  obtain ⟨x, y, hx, hy, hmod⟩ := h _ hwindow.1 hwindow.2
  rw [read_rom n ha, read_rom m ha]
  unfold Cpu.peek
  simp only [hx, hy, Cartridge.read, hprg]
  exact romByte_congr hmod _

theorem SamePatterns.read {m n : Machine} (h : SamePatterns m.ppu.pages n.ppu.pages)
    (hshow : ∀ w < 8, ShowsPattern m.cart.chr.size w (m.ppu.pages.page w))
    (hchr : n.cart.chr = m.cart.chr) (hvram : n.cart.vram = m.cart.vram) {address : UInt16}
    (ha : address < 0x2000) : n.ppu.read n.cart address = m.ppu.read m.cart address := by
  have hwindow : address.toNat / 0x400 < 8 := by
    have h8 : address.toNat < 0x2000 := UInt16.lt_iff_toNat_lt.mp ha
    omega
  have hpage := h _ hwindow
  have hshow := hshow _ hwindow
  unfold ShowsPattern at hshow
  unfold Ppu.read
  simp only [hpage]
  split at hshow
  · simp only [hshow, Cartridge.read, hvram]
  · obtain ⟨x, hx, -⟩ := hshow
    simp only [hx, Cartridge.read, hchr]

/-- A bank number that is remembered and wrapped shows the same bytes as the bank itself. -/
theorem sameProgram_restore {size : Nat} (hsize : ∃ n, 0 < n ∧ n < 256 ∧ size = n * 0x4000)
    {m : Machine} (h : ProgramWindows size m.cpu.pages) (t : PageTable) :
    SameProgram size m.cpu.pages (restoreProgram t size (windowsBody m)) := by
  intro w hlo hhi
  obtain ⟨n, hn, hn', rfl⟩ := hsize
  obtain ⟨k, i, hk, hi, rfl⟩ := exists_half hlo hhi
  obtain ⟨b, h0, hpage, hb⟩ := h.half hk hi
  have hword : (wordAt (windowsBody m) (k * 2)).toNat = b := by
    have haddr : (programAddress k).toNat / 0x1000 = 8 + 2 * k := by
      interval_cases k <;> rfl
    rw [wordAt_program m hk, PageTable.prgBank, haddr, h0]
    simp only [UInt16.toNat_ofNat']
    omega
  refine ⟨_, _, hpage, page_restoreProgram t _ _ hk hi, ?_⟩
  have hmax : max (n * 0x4000 / 0x2000) 1 = n * 2 := by omega
  have hwrap : b % (n * 2) * 0x2000 = b * 0x2000 % (n * 0x4000) := by
    rw [show n * 0x4000 = n * 2 * 0x2000 by omega, Nat.mul_mod_mul_right]
  rw [hword, wrapBank_natCast, hmax, hwrap, Nat.mod_add_mod]

/-- So does a pattern bank, and pattern RAM needs none. -/
theorem samePatterns_restore {cart : Cartridge} {m : Machine} (hchr : cart.chr = m.cart.chr)
    (hsize : ∃ n, n < 256 ∧ m.cart.chr.size = n * 0x2000)
    (h : ∀ w < 8, ShowsPattern m.cart.chr.size w (m.ppu.pages.page w)) (t : PageTable) :
    SamePatterns m.ppu.pages (restorePatterns t cart (windowsBody m)) := by
  intro w hw
  rw [← hchr] at hsize h
  obtain ⟨n, hn, hsize⟩ := hsize
  have hshow := h w hw
  have hhas : m.cart.hasChr = cart.hasChr := by simp [Cartridge.hasChr, hchr]
  rw [page_restorePatterns t cart _ hw, wordAt_patterns m hw, patternBank, hhas]
  unfold ShowsPattern at hshow
  split
  case isTrue hrom =>
    have h0 : cart.chr.size ≠ 0 := by simpa [Cartridge.hasChr] using hrom
    rw [if_neg h0] at hshow
    obtain ⟨b, hb, hlt⟩ := hshow
    have hword : (m.ppu.pages.chrBank w).toNat = b := by
      rw [PageTable.chrBank, hb]
      simp only [UInt16.toNat_ofNat']
      omega
    rw [hword, wrapBank_natCast, Nat.mod_eq_of_lt (by omega), hb]
  case isFalse hram =>
    have h0 : cart.chr.size = 0 := by simpa [Cartridge.hasChr] using hram
    rw [if_pos h0] at hshow
    exact hshow.symm

/-- Board 0 shows the same without a block: its windows never move. -/
theorem sameProgram_still {size : Nat} {m n : Machine} (h : ProgramWindows size m.cpu.pages)
    (hm : m.layout.Still) (hn : n.layout.Still) (hrom : n.cart.rom = m.cart.rom) :
    SameProgram size m.cpu.pages n.cpu.pages := by
  intro w hlo hhi
  have hpage : n.cpu.pages.page w = m.cpu.pages.page w := by
    have hw := (hn.1 w hlo hhi).trans (by rw [show n.layout.rom = m.layout.rom from hrom])
    exact hw.trans (hm.1 w hlo hhi).symm
  obtain ⟨k, i, hk, hi, rfl⟩ := exists_half hlo hhi
  obtain ⟨b, -, hb, -⟩ := h.half hk hi
  exact ⟨_, _, hb, hpage.trans hb, rfl⟩

theorem samePatterns_still {m n : Machine} (hm : m.layout.Still) (hn : n.layout.Still)
    (hrom : n.cart.rom = m.cart.rom) : SamePatterns m.ppu.pages n.ppu.pages := by
  intro w hw
  have hpage := (hn.2 w hw).trans (by rw [show n.layout.rom = m.layout.rom from hrom])
  exact hpage.trans (hm.2 w hw).symm

end Famicom.Snapshot
